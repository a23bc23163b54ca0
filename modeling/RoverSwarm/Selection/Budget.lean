import RoverSwarm.Selection.Connection

/-!
# Selection.Budget — `select_candidates` and its budget

Whatever strategy ran, the returned list has one edge for every one of its selection vector, and
the edges are different candidates (`respectsBudget_iff`).  What remains is to count the ones.  The
solver and its fallback come out at a positive budget; with the budget 0 the initial guess is the
whole list of candidates, since the slice from the index -0 is the whole list.
-/

namespace RoverSwarm.Selection

open Transition TopK AlgebraicConnectivityMaximization

variable {s : AlgebraicConnectivityMaximization} {inc : ℕ → Bool}

/-! ### The budget -/

/-- The candidates between included robots. -/
def AlgebraicConnectivityMaximization.includedCandidates (s : AlgebraicConnectivityMaximization)
    (inc : ℕ → Bool) : List EdgeInterRobot := getIncludedEdges s.candidateEdges.values inc

/-- As many edges as the budget and the candidates allow, all different and all candidates. -/
structure RespectsBudget (s : AlgebraicConnectivityMaximization) (inc : ℕ → Bool) (b : ℕ)
    (edges : List EdgeInterRobot) : Prop where
  length : edges.length = min b (s.includedCandidates inc).length
  distinct : (edges.map edgeKey).Nodup
  candidates : ∀ e ∈ edges, ∃ c ∈ s.candidateEdges.values, e.eq c = true

/-! ### What is returned -/

theorem includedCandidates_counted {R : Params} (h : Valid R s) {c : EdgeInterRobot}
    (hc : c ∈ s.includedCandidates inc) :
    s.Counted c ∧ inc c.robot0Id = true ∧ inc c.robot1Id = true := by
  obtain ⟨hmem, hinc⟩ := List.mem_filter.mp hc
  obtain ⟨e, he, rfl⟩ := List.mem_map.mp hmem
  rw [Bool.and_eq_true] at hinc
  exact ⟨h.counted e he, hinc⟩

theorem includedCandidates_nodup {R : Params} (h : Valid R s) (inc : ℕ → Bool) :
    ((s.includedCandidates inc).map edgeKey).Nodup :=
  (s.candidateEdges.values_map_nodup h.keys).sublist (List.filter_sublist.map edgeKey)

/-- The edges of a guess: with the weights there are, or with random ones. -/
def Env.weighted (env : Env) (greedyInit : Bool) (es : List Edge) : List Edge :=
  if greedyInit then es else es.mapIdx fun i e => { e with weight := env.rand.nth i }

@[simp] theorem Env.length_weighted (env : Env) (greedyInit : Bool) (es : List Edge) :
    (env.weighted greedyInit es).length = es.length := by
  unfold Env.weighted
  split_ifs
  · rfl
  · exact List.length_mapIdx

/-- The guess for a number of edges there are. -/
def Env.guess (env : Env) (greedyInit : Bool) (nb : ℕ) (es : List Edge) : Guess where
  wInit := greedyVector env.argpartition nb (env.weighted greedyInit es)
  edges := env.weighted greedyInit es
  rand := if greedyInit then env.rand else env.rand.drop es.length

theorem initialGuess_of_le (env : Env) (greedyInit : Bool) {nb : ℕ} {es : List Edge}
    (hnb : nb ≤ es.length) :
    initialGuess env greedyInit nb es = some (env.guess greedyInit nb es) := by
  have hlength : ∀ greedyInit, nb ≤ (env.weighted greedyInit es).length := fun greedyInit => by
    rw [Env.length_weighted]
    exact hnb
  unfold initialGuess Env.guess
  split_ifs with hgreedy
  · subst hgreedy
    have hgreedy : greedyInitialization env.argpartition nb es = _ :=
      greedyInitialization_of_le _ (hlength true)
    rw [hgreedy]
    rfl
  · obtain rfl := Bool.eq_false_iff.mpr hgreedy
    have hrandom : greedyInitialization env.argpartition nb (env.weighted false es) = _ :=
      greedyInitialization_of_le _ (hlength false)
    show (greedyInitialization env.argpartition nb (env.weighted false es)).map _ = _
    rw [hrandom, ← Env.length_weighted env false es]
    rfl

/-- The initial guess over the rekeyed candidates. -/
def AlgebraicConnectivityMaximization.guess (s : AlgebraicConnectivityMaximization) (env : Env)
    (greedyInit : Bool) (nb : ℕ) (inc : ℕ → Bool) : Guess :=
  env.guess greedyInit nb ((s.computeOffsets inc).rekeyEdges s.candidateEdges.values inc)

/-- Guessing changes nothing but the weights of the edges. -/
theorem Env.weighted_getElem? (env : Env) (greedyInit : Bool) (es : List Edge) (i : ℕ) :
    ∃ w, (env.weighted greedyInit es)[i]? = es[i]?.map fun e => { e with weight := w } := by
  unfold Env.weighted
  split_ifs
  · cases es[i]? with
    | none => exact ⟨0, rfl⟩
    | some e => exact ⟨e.weight, rfl⟩
  · exact ⟨env.rand.nth i, List.getElem?_mapIdx⟩

theorem guess_length (s : AlgebraicConnectivityMaximization) (env : Env) (greedyInit : Bool)
    (nb : ℕ) (inc : ℕ → Bool) :
    (s.guess env greedyInit nb inc).edges.length = (s.includedCandidates inc).length :=
  (env.length_weighted greedyInit _).trans (List.length_map _)

/-- The recovered edge at position `i` is candidate `i`, up to its weight. -/
theorem recover_guess {R : Params} (h : Valid R s) (inc : ℕ → Bool) (env : Env)
    (greedyInit : Bool) (nb i : ℕ) :
    ∃ w, (s.guess env greedyInit nb inc).edges[i]?.map ((s.computeOffsets inc).recoverEdge inc) =
      (s.includedCandidates inc)[i]?.map fun c => { c with weight := w } := by
  obtain ⟨w, hw⟩ := env.weighted_getElem? greedyInit
    ((s.computeOffsets inc).rekeyEdges s.candidateEdges.values inc) i
  refine ⟨w, ?_⟩
  rw [guess, Env.guess, hw, rekeyEdges, List.getElem?_map, includedCandidates]
  cases hc : (getIncludedEdges s.candidateEdges.values inc)[i]? with
  | none => rfl
  | some c =>
    obtain ⟨hcounted, h0, h1⟩ := includedCandidates_counted h (List.mem_of_getElem? hc)
    exact congrArg some (recoverEdge_rekeyEdge hcounted h0 h1 w)

/-- The edges that are returned, read off the vector. -/
theorem returnSelection_edges (s : AlgebraicConnectivityMaximization) (guess : Guess)
    (v : List Bool) : ((s.computeOffsets inc).countPoses.returnSelection guess inc v).2 =
      (ones v).filterMap fun i =>
        guess.edges[i]?.map ((s.computeOffsets inc).recoverEdge inc) := by
  have hrecover : ((s.computeOffsets inc).countPoses.returnSelection guess inc v).2 =
      (edgesAt guess.edges v).map ((s.computeOffsets inc).recoverEdge inc) := by
    unfold returnSelection
    dsimp only
    split_ifs
    · rfl
    · rfl
  rw [hrecover, edgesAt, List.map_filterMap]

/-- **What is returned respects the budget** if and only if the vector has the right number of
ones. -/
theorem respectsBudget_iff {R : Params} (h : Valid R s) (env : Env) (greedyInit : Bool)
    (nb b : ℕ) {v : List Bool} (hv : v.length = (s.includedCandidates inc).length) :
    RespectsBudget s inc b ((s.computeOffsets inc).countPoses.returnSelection
        (s.guess env greedyInit nb inc) inc v).2 ↔
      (ones v).length = min b (s.includedCandidates inc).length := by
  rw [returnSelection_edges]
  have hrecover := recover_guess h inc env greedyInit nb
  have hlength : ((ones v).filterMap fun i => (s.guess env greedyInit nb inc).edges[i]?.map
      ((s.computeOffsets inc).recoverEdge inc)).length = (ones v).length := by
    refine List.filterMap_length_eq_length.mpr fun i hi => ?_
    obtain ⟨w, hw⟩ := hrecover i
    have hlt : i < (s.includedCandidates inc).length := hv ▸ lt_of_mem_ones hi
    rw [hw, List.getElem?_eq_getElem hlt]
    rfl
  refine ⟨fun hresp => hlength ▸ hresp.length, fun hcount => ⟨hlength.trans hcount, ?_, ?_⟩⟩
  · -- different positions hold candidates with different keys
    rw [List.map_filterMap]
    refine (nodup_ones v).filterMap fun i j key hi hj => ?_
    have hkey : ∀ k : ℕ, ((s.guess env greedyInit nb inc).edges[k]?.map
        ((s.computeOffsets inc).recoverEdge inc)).map edgeKey =
        ((s.includedCandidates inc).map edgeKey)[k]? := by
      intro k
      obtain ⟨w, hw⟩ := hrecover k
      rw [hw, List.getElem?_map, Option.map_map]
      rfl
    rw [hkey, Option.mem_def] at hi hj
    obtain ⟨hlt, -⟩ := List.getElem?_eq_some_iff.mp hi
    exact (List.getElem?_inj hlt (includedCandidates_nodup h inc)).mp (hi.trans hj.symm)
  · intro e he
    obtain ⟨i, -, hi⟩ := List.mem_filterMap.mp he
    obtain ⟨w, hw⟩ := hrecover i
    rw [hw] at hi
    obtain ⟨c, hc, rfl⟩ := Option.map_eq_some_iff.mp hi
    refine ⟨c, (List.mem_filter.mp (List.mem_of_getElem? hc)).1, ?_⟩
    simp [EdgeInterRobot.eq]

/-! ### The solver -/

theorem ones_greedyVector (A : Argpartition ℚ) {k : ℕ} {es : List Edge} (hk : 0 < k)
    (hkn : k ≤ es.length) : (ones (greedyVector A k es)).length = k := by
  have h := A.greatest (w := es.map Edge.weight) hk (by rw [List.length_map]; exact hkn)
  rw [List.length_map] at h
  have hlt : ∀ i ∈ lastSlice k (A.run (es.map Edge.weight) (es.length - k)), i < es.length := by
    intro i hi
    exact (h.lt i hi).trans_eq (List.length_map _)
  rw [greedyVector, if_neg hk.ne', length_ones_oneHot h.nodup hlt, h.length]

/-- The slice from the index -0 selects everything. -/
theorem ones_greedyVector_zero (A : Argpartition ℚ) {es : List Edge} (hne : 0 < es.length) :
    (ones (greedyVector A 0 es)).length = es.length := by
  have hperm := A.perm (es.map Edge.weight) 0 (by rw [List.length_map]; exact hne)
  rw [List.length_map] at hperm
  rw [greedyVector, if_pos rfl, lastSlice, if_pos rfl, length_ones_oneHot]
  · rw [hperm.length_eq, List.length_range]
  · exact hperm.nodup_iff.mpr List.nodup_range
  · exact fun i hi => List.mem_range.mp (hperm.mem_iff.mp hi)

/-- The loop leaves no trial, or as many more ones as random edges were missing. -/
theorem pseudoGreedyLoop_spec {nbRandom n : ℕ} (hn : 0 < n) (trials i : ℕ) {w : List Bool}
    (rand : Rand) (hw : w.length = n) (hi : i ≤ nbRandom) :
    let r := pseudoGreedyLoop nbRandom n trials i w rand
    r.1.length = n ∧ (r.2.1 = 0 ∨ (ones r.1).length = (ones w).length + (nbRandom - i)) := by
  induction trials generalizing i w rand with
  | zero => exact ⟨hw, Or.inl rfl⟩
  | succ trials ih =>
    unfold pseudoGreedyLoop
    dsimp only
    split_ifs with hlt hfree
    · obtain ⟨h0, h1⟩ := rand.range 0
      have hj : ⌊rand.nth 0 * n⌋₊ < w.length := by
        rw [hw, Nat.floor_lt (mul_nonneg h0 n.cast_nonneg)]
        exact mul_lt_of_lt_one_left (Nat.cast_pos.mpr hn) h1
      obtain ⟨hlength, hcount⟩ := ih (i + 1) (rand.drop 1) (List.length_set.trans hw) hlt
      refine ⟨hlength, hcount.imp_right fun h => ?_⟩
      rw [h, length_ones_set hj hfree]
      omega
    · exact ih i (rand.drop 1) hw hi
    · exact ⟨hw, Or.inr (by dsimp only; omega)⟩

/-- The guess of a further trial selects `nb` candidates.  When all of them are to be random, the
greedy part selects everything, no random number finds a candidate that is left, and the trials run
out. -/
theorem pseudoGreedyInitialization_spec (A : Argpartition ℚ) (rand : Rand) {nb nbRandom : ℕ}
    {es : List Edge} (hnb : nb ≤ es.length) (hpos : 0 < nbRandom) (hle : nbRandom ≤ nb) :
    ∃ r, pseudoGreedyInitialization A rand nb nbRandom es = some r ∧ r.1.length = es.length ∧
      (ones r.1).length = nb := by
  have hne : 0 < es.length := by omega
  obtain ⟨hlength, hcount⟩ := pseudoGreedyLoop_spec hne (2 * nbRandom) 0 rand
    (length_greedyVector A (nb - nbRandom) es) (Nat.zero_le nbRandom)
  have hgreedy : greedyInitialization A (nb - nbRandom) es = _ :=
    greedyInitialization_of_le A ((Nat.sub_le _ _).trans hnb)
  unfold pseudoGreedyInitialization
  rw [hgreedy, greedyInitialization_of_le A hnb]
  simp only [Option.bind_eq_bind, Option.bind_some]
  split_ifs with htrials
  · exact ⟨_, rfl, length_greedyVector _ _ _, ones_greedyVector A (by omega) hnb⟩
  · have hones := hcount.resolve_left htrials
    refine ⟨_, rfl, hlength, ?_⟩
    rcases Nat.eq_zero_or_pos (nb - nbRandom) with hzero | hgreedy
    · have hle := length_ones_le (pseudoGreedyLoop nbRandom es.length (2 * nbRandom) 0
        (greedyVector A (nb - nbRandom) es) rand).1
      rw [hlength, hones, hzero, ones_greedyVector_zero A hne] at hle
      omega
    · rw [hones, ones_greedyVector A hgreedy (by omega)]
      omega

/-- The solver's loop returns what the solver selected, or the initial guess if every trial
failed. -/
theorem macLoop_cases (s : AlgebraicConnectivityMaximization) (env : Env) (fixed : List Edge)
    {es : List Edge} (result : List Bool) {nb trials : ℕ} {w : List Bool} (rand : Rand)
    (hnb : nb ≤ es.length) (htrials : trials ≤ nb) (hw : w.length = es.length)
    (hones : 0 < nb → (ones w).length = nb) :
    ∃ v, s.macLoop env fixed es result nb trials w rand = some v ∧
      (v = result ∨ v.length = es.length ∧ (ones v).length = nb) := by
  induction trials generalizing w rand with
  | zero => exact ⟨result, rfl, Or.inl rfl⟩
  | succ trials ih =>
    unfold macLoop
    cases hrun : env.fwSubset.run fixed es s.totalNbPoses w nb s.maxIters with
    | some v => exact ⟨v, rfl, Or.inr (env.fwSubset.spec hw (hones (by omega)).le hrun)⟩
    | none =>
      have hrandom : 0 < nb - trials ∧ nb - trials ≤ nb := by omega
      obtain ⟨⟨w', rand'⟩, hguess, hw', hones'⟩ :=
        pseudoGreedyInitialization_spec env.argpartition rand hnb hrandom.1 hrandom.2
      dsimp only
      rw [hguess]
      exact ih rand' (by omega) hw' fun _ => hones'

/-- **The solver's strategy** comes out at every positive budget and at no budget 0, unless the
constructor of `MAC` raises. -/
theorem solve_solver (s : AlgebraicConnectivityMaximization) (env : Env) {guess : Guess} {nb : ℕ}
    (hsolver : (s.enableSparsification && s.checkInitialFixedMeasurementsExists inc) = true)
    (hguess : guess.wInit = greedyVector env.argpartition nb guess.edges)
    (hne : 0 < guess.edges.length) (hnb : nb ≤ guess.edges.length) :
    (∀ v, s.solve env guess inc nb = some v → v.length = guess.edges.length) ∧
    ((∃ v, s.solve env guess inc nb = some v ∧ (ones v).length = nb) ↔
      0 < nb ∧ macAccepts (s.rekeyEdges s.fixedEdges inc ++ s.fillOdometry) s.totalNbPoses = true) := by
  have hsolve : s.solve env guess inc nb = s.runMacSolver env guess.rand
      (s.rekeyEdges s.fixedEdges inc ++ s.fillOdometry) guess.edges guess.wInit nb :=
    if_pos hsolver
  rw [hsolve]
  unfold runMacSolver
  split_ifs with haccepts
  · have hinit : guess.wInit.length = guess.edges.length := by
      rw [hguess]
      exact length_greedyVector _ _ _
    have hones : 0 < nb → (ones guess.wInit).length = nb := by
      intro hpos
      rw [hguess]
      exact ones_greedyVector _ hpos hnb
    obtain ⟨v, hv, hcases⟩ := macLoop_cases s env (s.rekeyEdges s.fixedEdges inc ++ s.fillOdometry)
      guess.wInit guess.rand hnb le_rfl hinit hones
    have hlength : v.length = guess.edges.length := by
      rcases hcases with heq | ⟨hlength, -⟩
      · rw [heq, hinit]
      · exact hlength
    refine ⟨fun _ heq => Option.some.inj (hv.symm.trans heq) ▸ hlength, ?_⟩
    by_cases hpos : 0 < nb
    · refine iff_of_true ⟨v, hv, ?_⟩ ⟨hpos, haccepts⟩
      rcases hcases with heq | ⟨-, hcount⟩
      · rw [heq, hones hpos]
      · exact hcount
    · -- without a trial the initial guess is the result, and it is everything
      obtain rfl : nb = 0 := by omega
      refine iff_of_false ?_ fun h => hpos h.1
      rintro ⟨_, heq, hcount⟩
      have hall : (ones guess.wInit).length = guess.edges.length := by
        rw [hguess]
        exact ones_greedyVector_zero _ hne
      rw [← Option.some.inj heq, hall] at hcount
      omega
  · exact ⟨fun _ heq => absurd heq (by simp), iff_of_false (by simp) fun h => haccepts h.2⟩

/-- The odometry of every robot has rows in the Laplacian. -/
theorem fillOdometry_lt {e : Edge} (he : e ∈ (s.computeOffsets inc).fillOdometry) :
    e.i < ((List.range s.maxNbRobots).map s.nbPoses).sum ∧
      e.j < ((List.range s.maxNbRobots).map s.nbPoses).sum := by
  obtain ⟨r, hr, hk⟩ := List.mem_flatMap.mp he
  obtain ⟨k, hk', rfl⟩ := List.mem_map.mp hk
  have hr : r < s.maxNbRobots := List.mem_range.mp hr
  have hk : k < s.nbPoses r - 1 := List.mem_range.mp hk'
  dsimp only
  by_cases hinc : inc r = true
  · rw [computeOffsets_offsets hr hinc]
    have hblock := blockStart_add_le (s := s) hinc hr
    have hsum := blockStart_le_sum s inc s.maxNbRobots
    omega
  · rw [computeOffsets_offsets_of_not (Bool.eq_false_iff.mpr hinc)]
    have hsum := nbPoses_le_sum (s := s) hr
    omega

theorem macAccepts_iff (s : AlgebraicConnectivityMaximization) (inc : ℕ → Bool) :
    macAccepts ((s.computeOffsets inc).rekeyEdges s.fixedEdges inc ++
        (s.computeOffsets inc).fillOdometry) ((List.range s.maxNbRobots).map s.nbPoses).sum = true ↔
      ∀ e ∈ (s.computeOffsets inc).rekeyEdges s.fixedEdges inc,
        e.i < ((List.range s.maxNbRobots).map s.nbPoses).sum ∧
          e.j < ((List.range s.maxNbRobots).map s.nbPoses).sum := by
  unfold macAccepts
  rw [List.all_eq_true]
  simp only [Bool.and_eq_true, decide_eq_true_iff]
  constructor
  · exact fun h e he => h e (List.mem_append_left _ he)
  · intro h e he
    rcases List.mem_append.mp he with he | he
    · exact h e he
    · exact fillOdometry_lt he

/-! ### When the budget is respected -/

/-- The call returns, and what it returns respects the budget. -/
def SelectsWithin (s : AlgebraicConnectivityMaximization) (env : Env) (b : ℕ)
    (considered : ℕ → Bool) (greedyInit : Bool) : Prop :=
  ∃ s' edges, s.selectCandidates env b considered greedyInit = some (s', edges) ∧
    RespectsBudget s (s.checkGraphDisconnections considered) b edges

/-- There is nothing to select; or the solver runs, with a positive budget and a row in the
Laplacian for every node of a fixed edge; or the candidates given to the unconnected robots fit the
budget. -/
def WithinBudget (s : AlgebraicConnectivityMaximization) (inc : ℕ → Bool) (b : ℕ) : Prop :=
  s.includedCandidates inc = [] ∨
    if (s.enableSparsification && s.checkInitialFixedMeasurementsExists inc) = true then
      0 < min b (s.includedCandidates inc).length ∧
        ∀ e ∈ (s.computeOffsets inc).rekeyEdges s.fixedEdges inc,
          e.i < ((List.range s.maxNbRobots).map s.nbPoses).sum ∧
            e.j < ((List.range s.maxNbRobots).map s.nbPoses).sum
    else
      Fits (s.includedCandidates inc) (choices (s.includedCandidates inc) [] (s.unconnected inc))
        (min b (s.includedCandidates inc).length)

instance (s : AlgebraicConnectivityMaximization) (inc : ℕ → Bool) (b : ℕ) :
    Decidable (WithinBudget s inc b) :=
  inferInstanceAs (Decidable (s.includedCandidates inc = [] ∨
    if (s.enableSparsification && s.checkInitialFixedMeasurementsExists inc) = true then
      0 < min b (s.includedCandidates inc).length ∧
        ∀ e ∈ (s.computeOffsets inc).rekeyEdges s.fixedEdges inc,
          e.i < ((List.range s.maxNbRobots).map s.nbPoses).sum ∧
            e.j < ((List.range s.maxNbRobots).map s.nbPoses).sum
    else
      Fits (s.includedCandidates inc) (choices (s.includedCandidates inc) [] (s.unconnected inc))
        (min b (s.includedCandidates inc).length)))

/-- `select_candidates`, by the number of included candidates. -/
theorem selectCandidates_eq (s : AlgebraicConnectivityMaximization) (env : Env) (b : ℕ)
    (considered : ℕ → Bool) (greedyInit : Bool) :
    let inc := s.checkGraphDisconnections considered
    let nb := min b (s.includedCandidates inc).length
    s.selectCandidates env b considered greedyInit =
      if 0 < (s.includedCandidates inc).length then
        ((s.computeOffsets inc).countPoses.solve env (s.guess env greedyInit nb inc) inc nb).map
          ((s.computeOffsets inc).countPoses.returnSelection (s.guess env greedyInit nb inc) inc)
      else some (s.computeOffsets inc, []) := by
  intro inc nb
  have hlength : (s.includedCandidates inc).length =
      ((s.computeOffsets inc).rekeyEdges s.candidateEdges.values inc).length :=
    (List.length_map _).symm
  have hnb : nb ≤ ((s.computeOffsets inc).rekeyEdges s.candidateEdges.values inc).length := by
    rw [← hlength]
    exact Nat.min_le_right _ _
  have hguess : initialGuess env greedyInit nb
      ((s.computeOffsets inc).rekeyEdges s.candidateEdges.values inc) = _ :=
    initialGuess_of_le env greedyInit hnb
  have hselect : s.selectCandidates env b considered greedyInit =
      if 0 < (s.includedCandidates inc).length then
        (initialGuess env greedyInit nb
          ((s.computeOffsets inc).rekeyEdges s.candidateEdges.values inc)).bind fun guess =>
            ((s.computeOffsets inc).countPoses.solve env guess inc nb).map
              ((s.computeOffsets inc).countPoses.returnSelection guess inc)
      else some (s.computeOffsets inc, []) := by
    rw [show nb = min b _ from congrArg (min b) hlength, hlength]
    rfl
  rw [hselect, hguess]
  rfl

theorem selectsWithin_of_nil {env : Env} {b : ℕ} {considered : ℕ → Bool} {greedyInit : Bool}
    (hnil : s.includedCandidates (s.checkGraphDisconnections considered) = []) :
    SelectsWithin s env b considered greedyInit := by
  refine ⟨s.computeOffsets (s.checkGraphDisconnections considered), [], ?_, ?_⟩
  · rw [selectCandidates_eq, hnil]
    rfl
  · refine ⟨?_, List.nodup_nil, fun e he => absurd he List.not_mem_nil⟩
    rw [hnil, List.length_nil, Nat.min_zero]

section Strategies

variable {R : Params} {b : ℕ} {considered : ℕ → Bool} {nb : ℕ}

/-- With candidates, the call respects the budget if the strategy returns a vector with the right
number of ones. -/
theorem selectsWithin_iff (h : Valid R s) (hinc : s.checkGraphDisconnections considered = inc)
    (hne : s.includedCandidates inc ≠ []) (hnb : min b (s.includedCandidates inc).length = nb)
    (env : Env) (greedyInit : Bool)
    (hsolve : ∀ v, (s.computeOffsets inc).countPoses.solve env (s.guess env greedyInit nb inc) inc
      nb = some v → v.length = (s.includedCandidates inc).length) :
    SelectsWithin s env b considered greedyInit ↔
      ∃ v, (s.computeOffsets inc).countPoses.solve env (s.guess env greedyInit nb inc) inc nb =
        some v ∧ (ones v).length = nb := by
  subst hinc hnb
  unfold SelectsWithin
  rw [selectCandidates_eq, if_pos (List.length_pos_iff.mpr hne)]
  constructor
  · rintro ⟨s', edges, heq, hresp⟩
    obtain ⟨v, hv, hreturn⟩ := Option.map_eq_some_iff.mp heq
    refine ⟨v, hv, ?_⟩
    have hedges : edges = _ := (congrArg Prod.snd hreturn).symm
    rw [hedges] at hresp
    exact (respectsBudget_iff h env greedyInit _ b (hsolve v hv)).mp hresp
  · rintro ⟨v, hv, hcount⟩
    refine ⟨_, _, Option.map_eq_some_iff.mpr ⟨v, hv, rfl⟩, ?_⟩
    exact (respectsBudget_iff h env greedyInit _ b (hsolve v hv)).mpr hcount

/-- With a fixed edge at every included robot, the solver decides. -/
theorem selectsWithin_solver (h : Valid R s)
    (hinc : s.checkGraphDisconnections considered = inc) (hne : s.includedCandidates inc ≠ [])
    (hnb : min b (s.includedCandidates inc).length = nb)
    (hsolver : (s.enableSparsification && s.checkInitialFixedMeasurementsExists inc) = true)
    (env : Env) (greedyInit : Bool) :
    SelectsWithin s env b considered greedyInit ↔
      0 < nb ∧ ∀ e ∈ (s.computeOffsets inc).rekeyEdges s.fixedEdges inc,
        e.i < ((List.range s.maxNbRobots).map s.nbPoses).sum ∧
          e.j < ((List.range s.maxNbRobots).map s.nbPoses).sum := by
  have hlength := guess_length s env greedyInit nb inc
  obtain ⟨hv, hcount⟩ := solve_solver (s.computeOffsets inc).countPoses env hsolver
    rfl (hlength ▸ List.length_pos_iff.mpr hne)
    (hlength ▸ hnb ▸ Nat.min_le_right _ _)
  rw [← macAccepts_iff]
  exact (selectsWithin_iff h hinc hne hnb env greedyInit
    fun v hsome => (hv v hsome).trans hlength).trans hcount

/-- Otherwise the connection-biased selection does. -/
theorem selectsWithin_connection (h : Valid R s)
    (hinc : s.checkGraphDisconnections considered = inc) (hne : s.includedCandidates inc ≠ [])
    (hnb : min b (s.includedCandidates inc).length = nb)
    (hsolver : ¬ (s.enableSparsification && s.checkInitialFixedMeasurementsExists inc) = true)
    {given : List ℕ} (hgiven : choices (s.includedCandidates inc) [] (s.unconnected inc) = given)
    (env : Env) (greedyInit : Bool) :
    SelectsWithin s env b considered greedyInit ↔
      ((filled env.argpartition (s.includedCandidates inc) given nb).toFinset ∪
        given.toFinset).card = nb := by
  have hincluded : getIncludedEdges (s.includedCandidates inc) inc = s.includedCandidates inc :=
    List.filter_eq_self.mpr fun e he => (List.mem_filter.mp he).2
  have hbound : nb ≤ (s.includedCandidates inc).length := hnb ▸ Nat.min_le_right _ _
  have hlt : ∀ i ∈ given, i < (s.includedCandidates inc).length :=
    hgiven ▸ choices_lt fun i hi => absurd hi List.not_mem_nil
  have hsolve : (s.computeOffsets inc).countPoses.solve env (s.guess env greedyInit nb inc) inc nb =
      some (setOnes (oneHot (s.includedCandidates inc).length
        (filled env.argpartition (s.includedCandidates inc) given nb)) given) := by
    refine (if_neg hsolver).trans ?_
    have hspec := connectionBiased_spec (s.computeOffsets inc).countPoses env.argpartition
      hincluded nb
    rw [show choices (s.includedCandidates inc) []
      ((s.computeOffsets inc).countPoses.unconnected inc) = given from hgiven] at hspec
    exact hspec.trans (if_neg (by omega))
  have hcount := length_ones_connectionBiased env.argpartition hbound hlt
  have hwithin := selectsWithin_iff h hinc hne hnb env greedyInit fun v hsome => by
    rw [hsolve] at hsome
    rw [← Option.some.inj hsome, length_setOnes, length_oneHot]
  rw [hwithin, hsolve]
  constructor
  · rintro ⟨v, hv, hones⟩
    obtain rfl := Option.some.inj hv
    exact hcount.symm.trans hones
  · exact fun hcard => ⟨_, rfl, hcount.trans hcard⟩

end Strategies

/-- An environment in which the solver always raises. -/
def Env.raising (argpartition : Argpartition ℚ) : Env where
  argpartition := argpartition
  rand := ⟨fun _ => 0, fun _ => ⟨le_rfl, one_pos⟩⟩
  fwSubset := ⟨fun _ _ _ _ _ _ => none, fun _ _ h => by simp at h⟩

/-- **The budget**: whatever the partial sort, the random numbers and the solver do, the call
respects the budget if and only if the state before it and the budget meet `WithinBudget`. -/
theorem selectsWithin_iff_withinBudget {R : Params} {tr : List (Event × List EdgeInterRobot)}
    (h : (selector R).Reaches tr s) (b : ℕ) (considered : ℕ → Bool) (greedyInit : Bool) :
    (∀ env, SelectsWithin s env b considered greedyInit) ↔
      WithinBudget s (s.checkGraphDisconnections considered) b := by
  have hvalid := valid_of_reaches h
  unfold WithinBudget
  by_cases hnil : s.includedCandidates (s.checkGraphDisconnections considered) = []
  · exact iff_of_true (fun env => selectsWithin_of_nil hnil) (Or.inl hnil)
  rw [or_iff_right hnil]
  split_ifs with hsolver
  · have hcall := selectsWithin_solver (b := b) hvalid rfl hnil rfl hsolver
    constructor
    · exact fun hall => (hcall (Env.raising (sorted fun _ => false)) greedyInit).mp (hall _)
    · exact fun hcond env => (hcall env greedyInit).mpr hcond
  · set given := choices (s.includedCandidates (s.checkGraphDisconnections considered)) []
      (s.unconnected (s.checkGraphDisconnections considered)) with hgiven
    have hcall := selectsWithin_connection (b := b) hvalid rfl hnil rfl hsolver hgiven.symm
    constructor
    · intro hall
      refine fits_of_card_eq (hgiven ▸ choices_lt fun i hi => absurd hi List.not_mem_nil)
        (Nat.min_le_right _ _) ?_
      exact (hcall (Env.raising (sorted fun i => i ∈ given)) greedyInit).mp (hall _)
    · exact fun hfits env => (hcall env greedyInit).mpr
        (hfits.card_eq env.argpartition (Nat.min_le_right _ _))

/-! ### The first selection of two robots -/

/-- Two robots, with the default arguments. -/
def two : Params where
  robotId := 0
  maxNbRobots := 2
  maxIters := 20
  fixedWeight := 1
  enableSparsification := true
  enableSparsificationComparison := false

/-- Two candidates between the robots, and no fixed edge yet. -/
def twoMatches : AlgebraicConnectivityMaximization :=
  ((selector two).init.addMatch ⟨0, 0, 1, 0, 9 / 10⟩).addMatch ⟨0, 1, 1, 1, 8 / 10⟩

theorem reaches_twoMatches : ∃ tr, (selector two).Reaches tr twoMatches := by
  have h0 : (selector two).Reaches [] (selector two).init := .init
  have h1 := h0.step (e := .addMatch ⟨0, 0, 1, 0, 9 / 10⟩) trivial rfl
  exact ⟨_, h1.step (e := .addMatch ⟨0, 1, 1, 1, 8 / 10⟩) trivial rfl⟩

/-- Both candidates fit the budget 2: each robot is given one of them. -/
theorem selectsWithin_iff_withinBudget_two :
    SelectsWithin twoMatches (Env.raising (sorted fun _ => false)) 2 (fun _ => true) true :=
  reaches_twoMatches.elim fun _ h =>
    (selectsWithin_iff_withinBudget h 2 (fun _ => true) true).mpr (by decide +kernel) _

/-- With the budget 1 both candidates are selected. -/
theorem not_selectsWithin : ¬ ∀ (R : Params) (tr : List (Event × List EdgeInterRobot))
    (s : AlgebraicConnectivityMaximization), (selector R).Reaches tr s →
    ∀ (env : Env) (b : ℕ) (considered : ℕ → Bool) (greedyInit : Bool),
      SelectsWithin s env b considered greedyInit := by
  intro h
  obtain ⟨tr, hreach⟩ := reaches_twoMatches
  obtain ⟨s', edges, heq, hresp⟩ := h two tr twoMatches hreach
    (Env.raising (sorted fun _ => false)) 1 (fun _ => true) true
  have hboth : (twoMatches.selectCandidates (Env.raising (sorted fun _ => false)) 1
      (fun _ => true) true).map (fun r => r.2.length) = some 2 := by decide +kernel
  rw [heq, Option.map_some, Option.some.injEq, hresp.length] at hboth
  exact absurd hboth (by decide +kernel)

end RoverSwarm.Selection
