import RoverSwarm.Selection.Budget

/-!
# Selection.Once — a match is selected at most once

Selected edges are removed from the candidates, and their keys are remembered; a match whose key is
remembered does not become a candidate.  Removing compares edges in either orientation and
remembering puts the smaller robot first.  The two say the same of edges between two robots, so no
candidate is remembered, and what is selected is new.
-/

namespace RoverSwarm.Selection

open Transition TopK

/-! ### Keys and equality -/

theorem EdgeInterRobot.eq_iff {e o : EdgeInterRobot} : e.eq o = true ↔
    (e.robot0Id = o.robot0Id ∧ e.robot0KeyframeId = o.robot0KeyframeId ∧
      e.robot1Id = o.robot1Id ∧ e.robot1KeyframeId = o.robot1KeyframeId) ∨
    (e.robot0Id = o.robot1Id ∧ e.robot0KeyframeId = o.robot1KeyframeId ∧
      e.robot1Id = o.robot0Id ∧ e.robot1KeyframeId = o.robot0KeyframeId) := by
  simp only [EdgeInterRobot.eq, Bool.or_eq_true, Bool.and_eq_true, beq_iff_eq, and_assoc]

theorem eq_of_edgeKey_eq {e o : EdgeInterRobot} (h : edgeKey e = edgeKey o) : e.eq o = true := by
  rw [EdgeInterRobot.eq_iff]
  unfold edgeKey at h
  split_ifs at h
  all_goals
    simp only [Prod.mk.injEq] at h
    omega

/-- Between two robots the key does not depend on the orientation. -/
theorem edgeKey_eq_of_eq {e o : EdgeInterRobot} (h : e.eq o = true)
    (hne : o.robot0Id ≠ o.robot1Id) : edgeKey e = edgeKey o := by
  rw [EdgeInterRobot.eq_iff] at h
  unfold edgeKey
  split_ifs
  all_goals
    simp only [Prod.mk.injEq]
    omega

namespace AlgebraicConnectivityMaximization

variable {s s' : AlgebraicConnectivityMaximization}

/-! ### Candidates and considered matches -/

/-- The candidates join two robots and have not been considered. -/
structure Fresh (s : AlgebraicConnectivityMaximization) : Prop where
  robots : ∀ e ∈ s.candidateEdges.entries, e.2.robot0Id ≠ e.2.robot1Id
  notConsidered : ∀ e ∈ s.candidateEdges.entries, e.1 ∉ s.alreadyConsideredMatches

/-- The edges are no candidates any more, and considered from now on. -/
structure Considers (s s' : AlgebraicConnectivityMaximization) (edges : List EdgeInterRobot) :
    Prop where
  candidates : ∀ e ∈ s'.candidateEdges.entries,
    e ∈ s.candidateEdges.entries ∧ ∀ o ∈ edges, e.2.eq o = false
  considered : ∀ key, key ∈ s'.alreadyConsideredMatches ↔
    key ∈ s.alreadyConsideredMatches ∨ ∃ o ∈ edges, edgeKey o = key

theorem Considers.nil (hcandidates : s'.candidateEdges = s.candidateEdges)
    (hconsidered : s'.alreadyConsideredMatches = s.alreadyConsideredMatches) :
    Considers s s' [] where
  candidates e he := ⟨hcandidates ▸ he, fun _ ho => absurd ho List.not_mem_nil⟩
  considered key := by simp [hconsidered]

/-- A candidate that stays has another key than the edges, since it is equal to none of them. -/
theorem Considers.fresh {edges : List EdgeInterRobot} (h : Considers s s' edges)
    (hkeys : ∀ e ∈ s.candidateEdges.entries, e.1 = edgeKey e.2) (hfresh : Fresh s) : Fresh s' where
  robots e he := hfresh.robots e (h.candidates e he).1
  notConsidered e he hmem := by
    obtain ⟨hold, hne⟩ := h.candidates e he
    rcases (h.considered e.1).mp hmem with hmem | ⟨o, ho, hkey⟩
    · exact hfresh.notConsidered e hold hmem
    · have heq : e.2.eq o = true := eq_of_edgeKey_eq ((hkeys e hold).symm.trans hkey.symm)
      exact absurd heq (by simp [hne o ho])

theorem mem_foldl_insert_edgeKey {edges : List EdgeInterRobot} {considered : Finset EdgeKey}
    {key : EdgeKey} : key ∈ edges.foldl (fun considered e => insert (edgeKey e) considered) considered ↔
      key ∈ considered ∨ ∃ o ∈ edges, edgeKey o = key := by
  induction edges generalizing considered with
  | nil => simp
  | cons e edges ih =>
    rw [List.foldl_cons, ih, Finset.mem_insert]
    simp only [List.mem_cons, exists_eq_or_imp]
    rw [eq_comm (a := key), or_comm (a := edgeKey e = key), or_assoc]

theorem removeCandidateEdges_considers (s : AlgebraicConnectivityMaximization)
    (edges : List EdgeInterRobot) : Considers s (s.removeCandidateEdges edges) edges where
  candidates e he := by
    obtain ⟨hmem, hnone⟩ := Dict.mem_filter.mp he
    refine ⟨hmem, fun o ho => ?_⟩
    rw [Bool.not_eq_true', List.any_eq_false] at hnone
    simpa using hnone o ho
  considered _ := mem_foldl_insert_edgeKey

theorem Considers.congr {t : AlgebraicConnectivityMaximization} {edges : List EdgeInterRobot}
    (h : Considers t s' edges) (hcandidates : t.candidateEdges = s.candidateEdges)
    (hconsidered : t.alreadyConsideredMatches = s.alreadyConsideredMatches) :
    Considers s s' edges := by
  obtain ⟨h1, h2⟩ := h
  rw [hcandidates] at h1
  rw [hconsidered] at h2
  exact ⟨h1, h2⟩

/-! ### The methods -/

theorem addFixedEdge_considers (s : AlgebraicConnectivityMaximization) (e : EdgeInterRobot) :
    Considers s (s.addFixedEdge e) [] := by
  unfold addFixedEdge updateInitialFixedEdgeExists
  dsimp only
  split_ifs
  · exact .nil rfl rfl
  · exact .nil rfl rfl

theorem foldl_updateInitialFixedEdgeExists (edges : List EdgeInterRobot)
    (s : AlgebraicConnectivityMaximization) :
    (edges.foldl updateInitialFixedEdgeExists s).candidateEdges = s.candidateEdges ∧
      (edges.foldl updateInitialFixedEdgeExists s).alreadyConsideredMatches =
        s.alreadyConsideredMatches := by
  induction edges generalizing s with
  | nil => exact ⟨rfl, rfl⟩
  | cons e edges ih =>
    rw [List.foldl_cons, (ih _).1, (ih _).2]
    unfold updateInitialFixedEdgeExists
    split_ifs
    · exact ⟨rfl, rfl⟩
    · exact ⟨rfl, rfl⟩

theorem candidateEdgesToFixed_considers (s : AlgebraicConnectivityMaximization)
    (edges : List EdgeInterRobot) : Considers s (s.candidateEdgesToFixed edges)
      (edges.map fun e => { e with weight := s.fixedWeight }) := by
  obtain ⟨hcandidates, hconsidered⟩ := foldl_updateInitialFixedEdgeExists
    (edges.map fun e => { e with weight := s.fixedWeight }) s
  exact (removeCandidateEdges_considers _ _).congr hcandidates hconsidered

/-- A selected edge is a candidate, up to its weight. -/
theorem mem_returnSelection {R : Params} (h : Valid R s) {inc : ℕ → Bool} {env : Env}
    {greedyInit : Bool} {nb : ℕ} {v : List Bool} {e : EdgeInterRobot}
    (he : e ∈ ((s.computeOffsets inc).countPoses.returnSelection
      (s.guess env greedyInit nb inc) inc v).2) :
    ∃ c ∈ s.candidateEdges.values, ∃ w, e = { c with weight := w } := by
  rw [returnSelection_edges] at he
  obtain ⟨i, -, hi⟩ := List.mem_filterMap.mp he
  obtain ⟨w, hw⟩ := recover_guess h inc env greedyInit nb i
  rw [hw] at hi
  obtain ⟨c, hc, rfl⟩ := Option.map_eq_some_iff.mp hi
  exact ⟨c, (List.mem_filter.mp (List.mem_of_getElem? hc)).1, w, rfl⟩

/-- What `select_candidates` returns are candidates, and they are considered from now on. -/
theorem selectCandidates_considers {R : Params} (h : Valid R s) {env : Env} {b : ℕ}
    {considered : ℕ → Bool} {greedyInit : Bool} {edges : List EdgeInterRobot}
    (hs : s.selectCandidates env b considered greedyInit = some (s', edges)) :
    Considers s s' edges ∧
      ∀ e ∈ edges, ∃ c ∈ s.candidateEdges.values, ∃ w, e = { c with weight := w } := by
  rw [selectCandidates_eq] at hs
  split_ifs at hs
  · obtain ⟨v, -, heq⟩ := Option.map_eq_some_iff.mp hs
    obtain ⟨rfl, rfl⟩ := Prod.mk.inj heq
    refine ⟨(removeCandidateEdges_considers _ _).congr ?_ ?_, fun e he => mem_returnSelection h he⟩
    · split_ifs
      · rfl
      · rfl
    · split_ifs
      · rfl
      · rfl
  · obtain ⟨rfl, rfl⟩ := Prod.mk.inj (Option.some.inj hs)
    exact ⟨.nil rfl rfl, fun e he => absurd he List.not_mem_nil⟩

theorem addMatch_fresh (hfresh : Fresh s) {m : EdgeInterRobot} (hm : m.robot0Id ≠ m.robot1Id) :
    Fresh (s.addMatch m) := by
  have hadd : Fresh (s.addCandidateEdge m) := by
    unfold addCandidateEdge
    split_ifs with hconsidered
    · exact hfresh
    · refine ⟨fun e he => ?_, fun e he => ?_⟩
      · rcases Dict.mem_set he with rfl | he
        · exact hm
        · exact hfresh.robots e he
      · rcases Dict.mem_set he with rfl | he
        · exact hconsidered
        · exact hfresh.notConsidered e he
  unfold addMatch
  dsimp only
  split
  · split_ifs
    · exact hadd
    · exact hfresh
  · exact hadd

theorem addMatch_considered (s : AlgebraicConnectivityMaximization) (m : EdgeInterRobot) :
    (s.addMatch m).alreadyConsideredMatches = s.alreadyConsideredMatches := by
  have hadd : (s.addCandidateEdge m).alreadyConsideredMatches = s.alreadyConsideredMatches := by
    unfold addCandidateEdge
    split_ifs
    · rfl
    · rfl
  unfold addMatch
  dsimp only
  split
  · split_ifs
    · exact hadd
    · rfl
  · exact hadd

/-! ### Runs -/

/-- Matches are between two different robots. -/
def TwoRobots (_ : AlgebraicConnectivityMaximization) : Event → Prop
  | .addMatch m => m.robot0Id ≠ m.robot1Id
  | _ => True

instance (s : AlgebraicConnectivityMaximization) : DecidablePred s.TwoRobots
  | .addMatch m => inferInstanceAs (Decidable (m.robot0Id ≠ m.robot1Id))
  | .addFixedEdge _ | .candidateEdgesToFixed _ | .removeCandidateEdges _
  | .selectCandidates _ _ _ _ => isTrue trivial

/-- What a step returns are new matches between two robots, considered from now on. -/
structure ReturnsNew (s s' : AlgebraicConnectivityMaximization) (o : List EdgeInterRobot) :
    Prop where
  fresh : Fresh s'
  mono : s.alreadyConsideredMatches ⊆ s'.alreadyConsideredMatches
  new : ∀ e ∈ o, e.robot0Id ≠ e.robot1Id ∧ edgeKey e ∉ s.alreadyConsideredMatches ∧
    edgeKey e ∈ s'.alreadyConsideredMatches

theorem Considers.returnsNew {edges : List EdgeInterRobot} (h : Considers s s' edges)
    (hkeys : ∀ e ∈ s.candidateEdges.entries, e.1 = edgeKey e.2) (hfresh : Fresh s) :
    ReturnsNew s s' [] where
  fresh := h.fresh hkeys hfresh
  mono key hkey := (h.considered key).mpr (Or.inl hkey)
  new _ he := absurd he List.not_mem_nil

/-- **Step lemma**, one case per method. -/
theorem Fresh.step {R : Params} (hfresh : Fresh s) (hvalid : Valid R s) {e : Event}
    {o : List EdgeInterRobot} (hc : s.TwoRobots e) (hstep : (selector R).step s e = some (s', o)) :
    ReturnsNew s s' o := by
  cases e with
  | addMatch m =>
    obtain ⟨-, rfl, rfl⟩ := selector_step_addMatch hstep
    refine ⟨addMatch_fresh hfresh hc, ?_, fun _ he => absurd he List.not_mem_nil⟩
    rw [addMatch_considered]
  | addFixedEdge edge =>
    obtain ⟨-, rfl, rfl⟩ := selector_step_addFixedEdge hstep
    exact (addFixedEdge_considers s edge).returnsNew hvalid.keys hfresh
  | candidateEdgesToFixed edges =>
    obtain ⟨-, rfl, rfl⟩ := selector_step_candidateEdgesToFixed hstep
    exact (candidateEdgesToFixed_considers s edges).returnsNew hvalid.keys hfresh
  | removeCandidateEdges edges =>
    obtain ⟨rfl, rfl⟩ := selector_step_removeCandidateEdges hstep
    exact (removeCandidateEdges_considers s edges).returnsNew hvalid.keys hfresh
  | selectCandidates env nb considered greedyInit =>
    obtain ⟨hconsiders, hcandidates⟩ := selectCandidates_considers hvalid hstep
    have hnew := hconsiders.returnsNew hvalid.keys hfresh
    refine ⟨hnew.fresh, hnew.mono, fun e he => ?_⟩
    obtain ⟨c, hc, w, rfl⟩ := hcandidates e he
    obtain ⟨entry, hentry, rfl⟩ := List.mem_map.mp hc
    have hkey : edgeKey { entry.2 with weight := w } = entry.1 := (hvalid.keys entry hentry).symm
    refine ⟨hfresh.robots entry hentry, ?_, (hconsiders.considered _).mpr (Or.inr ⟨_, he, rfl⟩)⟩
    rw [hkey]
    exact hfresh.notConsidered entry hentry

/-- What has been returned over a run is considered, each match once. -/
structure ReturnedOnce (tr : List (Event × List EdgeInterRobot))
    (s : AlgebraicConnectivityMaximization) : Prop where
  fresh : Fresh s
  considered : ∀ x ∈ tr, ∀ e ∈ x.2, edgeKey e ∈ s.alreadyConsideredMatches
  once : tr.Pairwise fun x y => ∀ e ∈ x.2, ∀ e' ∈ y.2, e.eq e' = false

theorem ReturnedOnce.concat {tr : List (Event × List EdgeInterRobot)} {e : Event}
    {o : List EdgeInterRobot} (h : ReturnedOnce tr s) (hnew : ReturnsNew s s' o) :
    ReturnedOnce (tr ++ [(e, o)]) s' where
  fresh := hnew.fresh
  considered x hx e' he' := by
    rcases List.mem_append.mp hx with hx | hx
    · exact hnew.mono (h.considered x hx e' he')
    · obtain rfl := List.mem_singleton.mp hx
      exact (hnew.new e' he').2.2
  once := by
    refine List.pairwise_append.mpr
      ⟨h.once, List.pairwise_singleton _ _, fun x hx y hy e₁ h₁ e₂ h₂ => ?_⟩
    obtain rfl := List.mem_singleton.mp hy
    obtain ⟨hne, hnot, -⟩ := hnew.new e₂ h₂
    refine Bool.eq_false_iff.mpr fun heq => hnot ?_
    rw [← edgeKey_eq_of_eq heq hne]
    exact h.considered x hx e₁ h₁

/-- **Run lemma**. -/
theorem returnedOnce_of_run {R : Params} {tr : List (Event × List EdgeInterRobot)}
    (h : (selector R).Run TwoRobots tr s) : ReturnedOnce tr s := by
  refine h.invariant (I := ReturnedOnce) ⟨⟨?_, ?_⟩, ?_, List.Pairwise.nil⟩
    fun _ _ _ _ _ hr ih hc hs => ih.concat (ih.fresh.step (valid_of_reaches hr.reaches) hc hs)
  · exact fun _ he => absurd he List.not_mem_nil
  · exact fun _ he => absurd he List.not_mem_nil
  · exact fun _ hx => absurd hx List.not_mem_nil

/-- **A match is selected at most once**: no two calls return the same pair of keyframes, in
whatever orientation, and no candidate has been considered. -/
theorem selected_once {R : Params} {tr : List (Event × List EdgeInterRobot)}
    (h : (selector R).Run TwoRobots tr s) :
    (tr.Pairwise fun x y => ∀ e ∈ x.2, ∀ e' ∈ y.2, e.eq e' = false) ∧
      ∀ e ∈ s.candidateEdges.entries, e.1 ∉ s.alreadyConsideredMatches :=
  ⟨(returnedOnce_of_run h).once, (returnedOnce_of_run h).fresh.notConsidered⟩

/-- A call that may select one of the candidates with robot 1. -/
def selectOne : Event :=
  .selectCandidates (Env.raising (sorted fun _ => false)) 1 (fun _ => true) true

/-- The match comes back in the other orientation after its selection, with another one. -/
theorem selected_once_again :
    ∃ tr s, (selector two).Reaches tr s ∧ (tr.map fun x => x.2.length) = [0, 1, 0, 0, 1] ∧
      tr.Pairwise fun x y => ∀ e ∈ x.2, ∀ e' ∈ y.2, e.eq e' = false := by
  obtain ⟨tr, s, hr, hlen⟩ :=
    Machine.exists_run_of_exec (M := selector two) (C := TwoRobots)
      [.addMatch ⟨0, 0, 1, 0, 9 / 10⟩, selectOne, .addMatch ⟨1, 0, 0, 0, 1⟩,
        .addMatch ⟨0, 1, 1, 1, 8 / 10⟩, selectOne]
      (p := fun r => (r.1.map fun x => x.2.length) = [0, 1, 0, 0, 1])
      (by decide +kernel) (by decide +kernel)
  exact ⟨tr, s, hr.reaches, hlen, (selected_once hr).1⟩

end AlgebraicConnectivityMaximization

end RoverSwarm.Selection
