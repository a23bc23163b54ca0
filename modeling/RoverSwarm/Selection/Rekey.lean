import Mathlib.Algebra.Order.BigOperators.Group.List
import RoverSwarm.Selection.Model

/-!
# Selection.Rekey — the single graph and the reachable states

The offsets are the starts of contiguous blocks of node ids, one for each included robot
(`blockStart`), so that `recover_inter_robot_edges` undoes `rekey_edges` on every edge whose
keyframes are below the numbers of poses (`recoverEdge_rekeyEdge`).  In every reachable state this
holds of the candidates (`valid_of_reaches`).
-/

namespace RoverSwarm.Selection

open Transition TopK

namespace AlgebraicConnectivityMaximization

variable {s : AlgebraicConnectivityMaximization} {inc : ℕ → Bool}

/-! ### Blocks of node ids -/

/-- The number of poses of the included robots below `r`: the first node id of robot `r`. -/
def blockStart (s : AlgebraicConnectivityMaximization) (inc : ℕ → Bool) : ℕ → ℕ
  | 0 => 0
  | r + 1 => blockStart s inc r + if inc r then s.nbPoses r else 0

theorem blockStart_mono {r r' : ℕ} (h : r ≤ r') : s.blockStart inc r ≤ s.blockStart inc r' := by
  induction h with
  | refl => exact le_rfl
  | step _ ih => exact ih.trans (Nat.le_add_right _ _)

/-- The blocks of included robots do not overlap. -/
theorem blockStart_add_le {r r' : ℕ} (hr : inc r = true) (h : r < r') :
    s.blockStart inc r + s.nbPoses r ≤ s.blockStart inc r' := by
  have hsucc : s.blockStart inc (r + 1) = s.blockStart inc r + s.nbPoses r := by
    rw [blockStart, if_pos hr]
  exact hsucc ▸ blockStart_mono h

theorem blockStart_le_sum (s : AlgebraicConnectivityMaximization) (inc : ℕ → Bool) (n : ℕ) :
    s.blockStart inc n ≤ ((List.range n).map s.nbPoses).sum := by
  induction n with
  | zero => exact Nat.zero_le _
  | succ n ih =>
    rw [List.range_succ, List.map_append, List.sum_append, List.map_singleton, List.sum_singleton,
      blockStart]
    split_ifs
    · omega
    · omega

theorem nbPoses_le_sum {n r : ℕ} (h : r < n) :
    s.nbPoses r ≤ ((List.range n).map s.nbPoses).sum :=
  List.single_le_sum (fun _ _ => Nat.zero_le _) _
    (List.mem_map.mpr ⟨r, List.mem_range.mpr h, rfl⟩)

/-- The loop of `compute_offsets` after the robots below `n`. -/
theorem offsetsLoop_range (s : AlgebraicConnectivityMaximization) (inc : ℕ → Bool) (n : ℕ) :
    let l := (List.range n).foldl (s.offsetsStep inc) {}
    (∀ r, r < n → inc r = true → l.offsets r = s.blockStart inc r) ∧
    (∀ r, inc r = false → l.offsets r = 0) ∧
    l.previousOffset + l.previousNbPoses = s.blockStart inc n := by
  induction n with
  | zero => exact ⟨fun r hr => absurd hr (Nat.not_lt_zero r), fun _ _ => rfl, rfl⟩
  | succ n ih =>
    obtain ⟨hinc, hnot, hsum⟩ := ih
    rw [List.range_succ, List.foldl_concat, offsetsStep, blockStart]
    by_cases hn : inc n = true
    · rw [if_pos hn, if_pos hn]
      dsimp only
      refine ⟨fun r hr hrinc => ?_, fun r hr => ?_, ?_⟩
      · rcases Nat.lt_succ_iff_lt_or_eq.mp hr with hlt | rfl
        · rw [Function.update_of_ne hlt.ne]
          exact hinc r hlt hrinc
        · rw [Function.update_self]
          exact hsum
      · have hne : r ≠ n := fun heq => by simp [← heq, hr] at hn
        rw [Function.update_of_ne hne]
        exact hnot r hr
      · exact congrArg (· + s.nbPoses n) hsum
    · rw [if_neg hn, if_neg hn, Nat.add_zero]
      refine ⟨fun r hr hrinc => ?_, hnot, hsum⟩
      rcases Nat.lt_succ_iff_lt_or_eq.mp hr with hlt | rfl
      · exact hinc r hlt hrinc
      · exact absurd hrinc hn

theorem computeOffsets_offsets {r : ℕ} (hr : r < s.maxNbRobots) (hinc : inc r = true) :
    (s.computeOffsets inc).offsets r = s.blockStart inc r :=
  (offsetsLoop_range s inc s.maxNbRobots).1 r hr hinc

theorem computeOffsets_offsets_of_not {r : ℕ} (hinc : inc r = false) :
    (s.computeOffsets inc).offsets r = 0 :=
  (offsetsLoop_range s inc s.maxNbRobots).2.1 r hinc

/-! ### Undoing the rekeying -/

/-- The last position that meets `p` wins. -/
theorem foldl_range_last {p : ℕ → Prop} [DecidablePred p] {n r : ℕ} (hr : r < n)
    (hp : r = 0 ∧ ¬ p 0 ∨ p r) (hlater : ∀ o, r < o → o < n → ¬ p o) :
    (List.range n).foldl (fun robot o => if p o then o else robot) 0 = r := by
  induction n with
  | zero => exact absurd hr (Nat.not_lt_zero r)
  | succ n ih =>
    rw [List.range_succ, List.foldl_concat]
    rcases Nat.lt_succ_iff_lt_or_eq.mp hr with hlt | heq
    · rw [if_neg (hlater n hlt (Nat.lt_succ_self n))]
      exact ih hlt fun o ho hon => hlater o ho (by omega)
    · subst heq
      rcases hp with ⟨h0, hp⟩ | hp
      · subst h0
        rw [if_neg hp]
        rfl
      · rw [if_pos hp]

/-- A node id in the block of a robot is the robot's. -/
theorem robotOf_offset {r k : ℕ} (hr : r < s.maxNbRobots) (hinc : inc r = true)
    (hk : k < s.nbPoses r) :
    (s.computeOffsets inc).robotOf inc ((s.computeOffsets inc).offsets r + k) = r := by
  unfold robotOf
  refine foldl_range_last hr ?_ fun o ho hon hp => ?_
  · by_cases h0 : r = 0
    · exact Or.inl ⟨h0, fun h => h.1 rfl⟩
    · exact Or.inr ⟨h0, hinc, Nat.le_add_right _ _⟩
  · obtain ⟨-, hoinc, hle⟩ := hp
    rw [computeOffsets_offsets hr hinc, computeOffsets_offsets (s := s) hon hoinc] at hle
    have hblock := blockStart_add_le (s := s) hinc ho
    omega

/-- The edge is between keyframes that are counted. -/
structure Counted (s : AlgebraicConnectivityMaximization) (e : EdgeInterRobot) : Prop where
  robot0 : e.robot0Id < s.maxNbRobots
  robot1 : e.robot1Id < s.maxNbRobots
  keyframe0 : e.robot0KeyframeId < s.nbPoses e.robot0Id
  keyframe1 : e.robot1KeyframeId < s.nbPoses e.robot1Id

/-- **Recovering undoes rekeying**, whatever weight the rekeyed edge has been given. -/
theorem recoverEdge_rekeyEdge {e : EdgeInterRobot} (h : s.Counted e)
    (hinc0 : inc e.robot0Id = true) (hinc1 : inc e.robot1Id = true) (w : ℚ) :
    (s.computeOffsets inc).recoverEdge inc
        { (s.computeOffsets inc).rekeyEdge e with weight := w } = { e with weight := w } := by
  have h0 := robotOf_offset h.robot0 hinc0 h.keyframe0
  have h1 := robotOf_offset h.robot1 hinc1 h.keyframe1
  unfold recoverEdge rekeyEdge
  dsimp only
  rw [h0, h1, Nat.add_sub_cancel_left, Nat.add_sub_cancel_left]

/-! ### What the methods do to the candidates and the numbers of poses -/

theorem le_updateNbPoses (s : AlgebraicConnectivityMaximization) (e : EdgeInterRobot) (r : ℕ) :
    s.nbPoses r ≤ (s.updateNbPoses e).nbPoses r := by
  unfold updateNbPoses
  dsimp only
  by_cases h1 : r = e.robot1Id
  · subst h1
    rw [Function.update_self]
    by_cases h0 : e.robot1Id = e.robot0Id
    · rw [← h0, Function.update_self]
      exact (le_max_left _ _).trans (le_max_left _ _)
    · rw [Function.update_of_ne h0]
      exact le_max_left _ _
  · rw [Function.update_of_ne h1]
    by_cases h0 : r = e.robot0Id
    · subst h0
      rw [Function.update_self]
      exact le_max_left _ _
    · rw [Function.update_of_ne h0]

theorem updateNbPoses_counted {e : EdgeInterRobot} (h0 : e.robot0Id < s.maxNbRobots)
    (h1 : e.robot1Id < s.maxNbRobots) : (s.updateNbPoses e).Counted e := by
  refine ⟨h0, h1, ?_, ?_⟩
  · unfold updateNbPoses
    dsimp only
    by_cases h : e.robot0Id = e.robot1Id
    · rw [h, Function.update_self, Function.update_self]
      exact (Nat.lt_succ_self _).trans_le ((le_max_right _ _).trans (le_max_left _ _))
    · rw [Function.update_of_ne h, Function.update_self]
      exact (Nat.lt_succ_self _).trans_le (le_max_right _ _)
  · unfold updateNbPoses
    dsimp only
    rw [Function.update_self]
    exact (Nat.lt_succ_self _).trans_le (le_max_right _ _)

/-- `s'` comes from `s` by adding no candidates and forgetting no poses. -/
structure Extends (s s' : AlgebraicConnectivityMaximization) : Prop where
  maxNbRobots : s'.maxNbRobots = s.maxNbRobots
  candidates : s'.candidateEdges.entries ⊆ s.candidateEdges.entries
  nbPoses : ∀ r, s.nbPoses r ≤ s'.nbPoses r

theorem Extends.refl (s : AlgebraicConnectivityMaximization) : Extends s s :=
  ⟨rfl, List.Subset.refl _, fun _ => le_rfl⟩

theorem Extends.trans {s₁ s₂ s₃ : AlgebraicConnectivityMaximization} (h : Extends s₁ s₂)
    (h' : Extends s₂ s₃) : Extends s₁ s₃ :=
  ⟨h'.maxNbRobots.trans h.maxNbRobots, fun _ he => h.candidates (h'.candidates he),
    fun r => (h.nbPoses r).trans (h'.nbPoses r)⟩

theorem Counted.mono {s' : AlgebraicConnectivityMaximization} {e : EdgeInterRobot}
    (h : s.Counted e) (hmax : s'.maxNbRobots = s.maxNbRobots)
    (hposes : ∀ r, s.nbPoses r ≤ s'.nbPoses r) : s'.Counted e where
  robot0 := hmax ▸ h.robot0
  robot1 := hmax ▸ h.robot1
  keyframe0 := h.keyframe0.trans_le (hposes _)
  keyframe1 := h.keyframe1.trans_le (hposes _)

theorem Counted.of_extends {s' : AlgebraicConnectivityMaximization} {e : EdgeInterRobot}
    (h : s.Counted e) (hext : Extends s s') : s'.Counted e := h.mono hext.maxNbRobots hext.nbPoses

theorem updateNbPoses_extends (s : AlgebraicConnectivityMaximization) (e : EdgeInterRobot) :
    Extends s (s.updateNbPoses e) :=
  ⟨rfl, List.Subset.refl _, le_updateNbPoses s e⟩

theorem updateInitialFixedEdgeExists_extends (s : AlgebraicConnectivityMaximization)
    (e : EdgeInterRobot) : Extends s (s.updateInitialFixedEdgeExists e) := by
  unfold updateInitialFixedEdgeExists
  split_ifs
  · exact ⟨rfl, List.Subset.refl _, fun _ => le_rfl⟩
  · exact Extends.refl s

theorem removeCandidateEdges_extends (s : AlgebraicConnectivityMaximization)
    (edges : List EdgeInterRobot) : Extends s (s.removeCandidateEdges edges) :=
  ⟨rfl, fun _ he => (Dict.mem_filter.mp he).1, fun _ => le_rfl⟩

theorem addFixedEdge_extends (s : AlgebraicConnectivityMaximization) (e : EdgeInterRobot) :
    Extends s (s.addFixedEdge e) := by
  have h : Extends s { s with fixedEdges := s.fixedEdges ++ [e] } :=
    ⟨rfl, List.Subset.refl _, fun _ => le_rfl⟩
  exact (h.trans (updateNbPoses_extends _ e)).trans (updateInitialFixedEdgeExists_extends _ e)

theorem foldl_extends {f : AlgebraicConnectivityMaximization → EdgeInterRobot →
      AlgebraicConnectivityMaximization} (hf : ∀ s e, Extends s (f s e))
    (s : AlgebraicConnectivityMaximization) (edges : List EdgeInterRobot) :
    Extends s (edges.foldl f s) := by
  induction edges generalizing s with
  | nil => exact Extends.refl s
  | cons e es ih => exact (hf s e).trans (ih _)

theorem candidateEdgesToFixed_extends (s : AlgebraicConnectivityMaximization)
    (edges : List EdgeInterRobot) : Extends s (s.candidateEdgesToFixed edges) := by
  have hfixed := foldl_extends updateInitialFixedEdgeExists_extends s
    (edges.map fun e => { e with weight := s.fixedWeight })
  refine Extends.trans ?_ (removeCandidateEdges_extends _ _)
  exact ⟨hfixed.maxNbRobots, hfixed.candidates, hfixed.nbPoses⟩

theorem returnSelection_extends (s : AlgebraicConnectivityMaximization) (guess : Guess)
    (inc : ℕ → Bool) (result : List Bool) :
    Extends s (s.returnSelection guess inc result).1 := by
  unfold returnSelection
  dsimp only
  split_ifs
  · have hlogs : Extends s (s.sparsificationComparisonLogs guess.edges inc guess.wInit result) :=
      ⟨rfl, List.Subset.refl _, fun _ => le_rfl⟩
    exact hlogs.trans (removeCandidateEdges_extends _ _)
  · exact removeCandidateEdges_extends _ _

/-- A call that returns comes to its last block, or has no candidate to select. -/
theorem selectCandidates_cases {env : Env} {b : ℕ} {considered : ℕ → Bool} {greedyInit : Bool}
    {s' : AlgebraicConnectivityMaximization} {edges : List EdgeInterRobot}
    (h : s.selectCandidates env b considered greedyInit = some (s', edges)) :
    let inc := s.checkGraphDisconnections considered
    (∃ guess result,
      (s.computeOffsets inc).countPoses.returnSelection guess inc result = (s', edges)) ∨
    s.computeOffsets inc = s' ∧ [] = edges := by
  unfold selectCandidates at h
  dsimp only at h
  split_ifs at h
  · obtain ⟨guess, -, hsolve⟩ := Option.bind_eq_some_iff.mp h
    obtain ⟨result, -, heq⟩ := Option.map_eq_some_iff.mp hsolve
    exact Or.inl ⟨guess, result, heq⟩
  · exact Or.inr (Prod.mk.inj (Option.some.inj h))

theorem selectCandidates_extends {env : Env} {b : ℕ} {considered : ℕ → Bool} {greedyInit : Bool}
    {s' : AlgebraicConnectivityMaximization} {edges : List EdgeInterRobot}
    (h : s.selectCandidates env b considered greedyInit = some (s', edges)) : Extends s s' := by
  have hoffsets : ∀ inc, Extends s (s.computeOffsets inc) :=
    fun _ => ⟨rfl, List.Subset.refl _, fun _ => le_rfl⟩
  rcases selectCandidates_cases h with ⟨guess, result, heq⟩ | ⟨rfl, -⟩
  · have hcount : ∀ t : AlgebraicConnectivityMaximization, Extends t t.countPoses :=
      fun _ => ⟨rfl, List.Subset.refl _, fun _ => le_rfl⟩
    have hs' : _ = s' := congrArg Prod.fst heq
    exact hs' ▸ ((hoffsets _).trans (hcount _)).trans (returnSelection_extends _ guess _ result)
  · exact hoffsets _

/-! ### The reachable states -/

/-- The candidates are stored under their keys, and between counted keyframes. -/
structure Valid (R : Params) (s : AlgebraicConnectivityMaximization) : Prop where
  maxNbRobots : s.maxNbRobots = R.maxNbRobots
  keys : ∀ e ∈ s.candidateEdges.entries, e.1 = edgeKey e.2
  counted : ∀ e ∈ s.candidateEdges.entries, s.Counted e.2

theorem Valid.of_extends {R : Params} {s' : AlgebraicConnectivityMaximization} (h : Valid R s)
    (hext : Extends s s') : Valid R s' where
  maxNbRobots := hext.maxNbRobots.trans h.maxNbRobots
  keys e he := h.keys e (hext.candidates he)
  counted e he := (h.counted e (hext.candidates he)).of_extends hext

theorem Valid.addCandidateEdge {R : Params} (h : Valid R s) {e : EdgeInterRobot}
    (hknown : e.Known R) : Valid R (s.addCandidateEdge e) := by
  unfold AlgebraicConnectivityMaximization.addCandidateEdge
  split_ifs with hconsidered
  · exact h
  · have hext := le_updateNbPoses
      { s with candidateEdges := s.candidateEdges.set (edgeKey e) e } e
    refine ⟨h.maxNbRobots, fun e' he' => ?_, fun e' he' => ?_⟩
    · rcases Dict.mem_set he' with rfl | he'
      · rfl
      · exact h.keys e' he'
    · rcases Dict.mem_set he' with rfl | he'
      · refine updateNbPoses_counted ?_ ?_
        · exact h.maxNbRobots ▸ hknown.1
        · exact h.maxNbRobots ▸ hknown.2
      · have hold := h.counted e' he'
        exact ⟨hold.robot0, hold.robot1, hold.keyframe0.trans_le (hext _),
          hold.keyframe1.trans_le (hext _)⟩

/-- **Step lemma**, one case per method. -/
theorem Valid.step {R : Params} (h : Valid R s) {e : Event}
    {s' : AlgebraicConnectivityMaximization} {o : List EdgeInterRobot}
    (hstep : (selector R).step s e = some (s', o)) : Valid R s' := by
  cases e with
  | addMatch m =>
    obtain ⟨hknown, rfl, -⟩ := selector_step_addMatch hstep
    unfold addMatch
    dsimp only
    split
    · split_ifs
      · exact h.addCandidateEdge hknown
      · exact h
    · exact h.addCandidateEdge hknown
  | addFixedEdge edge =>
    obtain ⟨-, rfl, -⟩ := selector_step_addFixedEdge hstep
    exact h.of_extends (addFixedEdge_extends s edge)
  | candidateEdgesToFixed edges =>
    obtain ⟨-, rfl, -⟩ := selector_step_candidateEdgesToFixed hstep
    exact h.of_extends (candidateEdgesToFixed_extends s edges)
  | removeCandidateEdges edges =>
    obtain ⟨rfl, -⟩ := selector_step_removeCandidateEdges hstep
    exact h.of_extends (removeCandidateEdges_extends s edges)
  | selectCandidates env nb considered greedyInit =>
    exact h.of_extends (selectCandidates_extends hstep)

theorem Valid.init (R : Params) : Valid R (selector R).init :=
  ⟨rfl, fun _ he => absurd he List.not_mem_nil, fun _ he => absurd he List.not_mem_nil⟩

theorem valid_of_reaches {R : Params} {tr : List (Event × List EdgeInterRobot)}
    (h : (selector R).Reaches tr s) : Valid R s :=
  h.invariant (I := fun _ s => Valid R s) (Valid.init R)
    fun _ _ _ _ _ _ hvalid _ hstep => hvalid.step hstep

end AlgebraicConnectivityMaximization

end RoverSwarm.Selection
