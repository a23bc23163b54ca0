import RoverSwarm.Selection.Once

/-!
# Selection.BestWeight — the weight a candidate carries

A match that is reported again should replace its candidate only if it weighs more.  `add_match`
looks the match up under the key in the orientation of the report, while the candidates stand under
the key with the smaller robot first.  So a match whose first robot is the larger one is never found
and always replaces the candidate, also with a smaller weight.
-/

namespace RoverSwarm.Selection

open Transition

/-- The match an event reports. -/
def Event.reported : Event → Option EdgeInterRobot
  | .addMatch m => some m
  | _ => none

/-- The edges an event takes out of the candidates by its argument. -/
def Event.removed : Event → List EdgeInterRobot
  | .candidateEdgesToFixed edges => edges
  | .removeCandidateEdges edges => edges
  | _ => []

/-- The weights reported for a pair of keyframes, in either orientation. -/
def weightsOf (tr : List (Event × List EdgeInterRobot)) (key : EdgeKey) : List ℚ :=
  ((tr.filterMap fun x => x.1.reported).filter fun m => edgeKey m = key).map EdgeInterRobot.weight

/-- The pair of keyframes has been removed, or selected. -/
def Taken (tr : List (Event × List EdgeInterRobot)) (key : EdgeKey) : Prop :=
  ∃ x ∈ tr, ∃ e ∈ x.1.removed ++ x.2, edgeKey e = key

theorem taken_concat {tr : List (Event × List EdgeInterRobot)} {x : Event × List EdgeInterRobot}
    {key : EdgeKey} :
    Taken (tr ++ [x]) key ↔ Taken tr key ∨ ∃ e ∈ x.1.removed ++ x.2, edgeKey e = key := by
  simp only [Taken, List.mem_append, List.mem_singleton, or_and_right, exists_or,
    exists_eq_left]

theorem weightsOf_concat_match (tr : List (Event × List EdgeInterRobot)) (m : EdgeInterRobot)
    (o : List EdgeInterRobot) (key : EdgeKey) :
    weightsOf (tr ++ [(.addMatch m, o)]) key =
      if edgeKey m = key then weightsOf tr key ++ [m.weight] else weightsOf tr key := by
  by_cases hkey : edgeKey m = key
  · simp [weightsOf, Event.reported, hkey]
  · simp [weightsOf, Event.reported, hkey]

theorem weightsOf_concat_of_reported {tr : List (Event × List EdgeInterRobot)} {e : Event}
    (he : e.reported = none) (o : List EdgeInterRobot) (key : EdgeKey) :
    weightsOf (tr ++ [(e, o)]) key = weightsOf tr key := by
  simp [weightsOf, he]

theorem max?_concat (ws : List ℚ) (w : ℚ) :
    (ws ++ [w]).max? = some (ws.max?.elim w fun best => max best w) := by
  cases ws with
  | nil => rfl
  | cons v ws =>
    rw [List.cons_append, List.max?_cons', List.max?_cons', List.foldl_append]
    rfl

namespace AlgebraicConnectivityMaximization

variable {s s' : AlgebraicConnectivityMaximization}

/-! ### Methods that only take candidates out -/

/-- The candidates that are not considered afterwards stay as they are. -/
def Keeps (s s' : AlgebraicConnectivityMaximization) : Prop :=
  ∀ key, key ∉ s'.alreadyConsideredMatches →
    s'.candidateEdges.get? key = s.candidateEdges.get? key

theorem Keeps.of_eq (hcandidates : s'.candidateEdges = s.candidateEdges) : Keeps s s' := by
  intro key _
  rw [hcandidates]

/-- An edge between two robots is removed only under its own key. -/
theorem removeCandidateEdges_keeps {t : AlgebraicConnectivityMaximization} (hfresh : Fresh s)
    (hkeys : ∀ e ∈ s.candidateEdges.entries, e.1 = edgeKey e.2) (edges : List EdgeInterRobot)
    (ht : t.candidateEdges = s.candidateEdges) : Keeps s (t.removeCandidateEdges edges) := by
  intro key hkey
  have hnot : ∀ o ∈ edges, edgeKey o ≠ key := fun o ho heq =>
    hkey (((removeCandidateEdges_considers t edges).considered key).mpr (Or.inr ⟨o, ho, heq⟩))
  show (t.candidateEdges.filter _).get? key = s.candidateEdges.get? key
  rw [ht, Dict.get?_filter]
  cases hget : s.candidateEdges.get? key with
  | none => rfl
  | some c =>
    have hmem := Dict.get?_eq_some_iff.mp hget
    have hnone : (edges.any fun o => c.eq o) = false := by
      refine List.any_eq_false.mpr fun o ho heq => hnot o ho ?_
      have hne : o.robot0Id ≠ o.robot1Id := by
        have hrobots : c.robot0Id ≠ c.robot1Id := hfresh.robots _ hmem
        have hcases := EdgeInterRobot.eq_iff.mp heq
        omega
      exact (edgeKey_eq_of_eq heq hne).symm.trans (hkeys _ hmem).symm
    rw [Option.filter_some, hnone]
    rfl

theorem addFixedEdge_keeps (s : AlgebraicConnectivityMaximization) (e : EdgeInterRobot) :
    Keeps s (s.addFixedEdge e) := by
  refine .of_eq ?_
  unfold addFixedEdge updateInitialFixedEdgeExists
  dsimp only
  split_ifs
  · rfl
  · rfl

theorem candidateEdgesToFixed_keeps (hfresh : Fresh s)
    (hkeys : ∀ e ∈ s.candidateEdges.entries, e.1 = edgeKey e.2) (edges : List EdgeInterRobot) :
    Keeps s (s.candidateEdgesToFixed edges) :=
  removeCandidateEdges_keeps hfresh hkeys _ (foldl_updateInitialFixedEdgeExists _ s).1

theorem selectCandidates_keeps (hfresh : Fresh s)
    (hkeys : ∀ e ∈ s.candidateEdges.entries, e.1 = edgeKey e.2) {env : Env} {b : ℕ}
    {considered : ℕ → Bool} {greedyInit : Bool} {edges : List EdgeInterRobot}
    (hs : s.selectCandidates env b considered greedyInit = some (s', edges)) : Keeps s s' := by
  rw [selectCandidates_eq] at hs
  split_ifs at hs
  · obtain ⟨v, -, heq⟩ := Option.map_eq_some_iff.mp hs
    obtain ⟨rfl, -⟩ := Prod.mk.inj heq
    refine removeCandidateEdges_keeps hfresh hkeys _ ?_
    split_ifs
    · rfl
    · rfl
  · obtain ⟨rfl, -⟩ := Prod.mk.inj (Option.some.inj hs)
    exact .of_eq rfl

/-! ### What one event does -/

/-- The edges an event removes, or selects, are considered from now on; no other match is. -/
theorem considered_of_step {R : Params} (hvalid : Valid R s) {e : Event}
    {o : List EdgeInterRobot} (hstep : (selector R).step s e = some (s', o)) (key : EdgeKey) :
    key ∈ s'.alreadyConsideredMatches ↔
      key ∈ s.alreadyConsideredMatches ∨ ∃ e' ∈ e.removed ++ o, edgeKey e' = key := by
  cases e with
  | addMatch m =>
    obtain ⟨-, rfl, rfl⟩ := selector_step_addMatch hstep
    rw [addMatch_considered]
    simp [Event.removed]
  | addFixedEdge edge =>
    obtain ⟨-, rfl, rfl⟩ := selector_step_addFixedEdge hstep
    exact (addFixedEdge_considers s edge).considered key
  | candidateEdgesToFixed edges =>
    obtain ⟨-, rfl, rfl⟩ := selector_step_candidateEdgesToFixed hstep
    rw [(candidateEdgesToFixed_considers s edges).considered key, Event.removed, List.append_nil]
    simp only [List.mem_map, exists_exists_and_eq_and]
    rfl
  | removeCandidateEdges edges =>
    obtain ⟨rfl, rfl⟩ := selector_step_removeCandidateEdges hstep
    rw [(removeCandidateEdges_considers s edges).considered key, Event.removed, List.append_nil]
  | selectCandidates env nb considered greedyInit =>
    exact (selectCandidates_considers hvalid hstep).1.considered key

theorem keeps_of_step {R : Params} (hfresh : Fresh s) (hvalid : Valid R s) {e : Event}
    {o : List EdgeInterRobot} (he : e.reported = none)
    (hstep : (selector R).step s e = some (s', o)) : Keeps s s' := by
  cases e with
  | addMatch m => exact absurd he (by simp [Event.reported])
  | addFixedEdge edge =>
    obtain ⟨-, rfl, -⟩ := selector_step_addFixedEdge hstep
    exact addFixedEdge_keeps s edge
  | candidateEdgesToFixed edges =>
    obtain ⟨-, rfl, -⟩ := selector_step_candidateEdgesToFixed hstep
    exact candidateEdgesToFixed_keeps hfresh hvalid.keys edges
  | removeCandidateEdges edges =>
    obtain ⟨rfl, -⟩ := selector_step_removeCandidateEdges hstep
    exact removeCandidateEdges_keeps hfresh hvalid.keys edges rfl
  | selectCandidates env nb considered greedyInit =>
    exact selectCandidates_keeps hfresh hvalid.keys hstep

/-- The key of an edge between two robots has the smaller robot first. -/
theorem edgeKey_lt {e : EdgeInterRobot} (he : e.robot0Id ≠ e.robot1Id) :
    (edgeKey e).1 < (edgeKey e).2.2.1 := by
  unfold edgeKey
  split_ifs with h
  · exact h
  · show e.robot1Id < e.robot0Id
    omega

theorem get?_addCandidateEdge {m : EdgeInterRobot} (hnew : edgeKey m ∉ s.alreadyConsideredMatches)
    (key : EdgeKey) : (s.addCandidateEdge m).candidateEdges.get? key =
      if key = edgeKey m then some m else s.candidateEdges.get? key := by
  rw [addCandidateEdge, if_neg hnew]
  exact Dict.get?_set _ _ _ _

/-- The weight of the candidate after a report of `m`: in the orientation of the key the heavier of
the two stays, in the other the match replaces the candidate. -/
def weightAfter (m : EdgeInterRobot) : Option EdgeInterRobot → ℚ
  | some c => if m.robot0Id < m.robot1Id then max c.weight m.weight else m.weight
  | none => m.weight

/-- No candidate is stored with the larger robot first. -/
theorem get?_eq_none_of_not_lt (hfresh : Fresh s)
    (hkeys : ∀ e ∈ s.candidateEdges.entries, e.1 = edgeKey e.2) {m : EdgeInterRobot}
    (horder : ¬ m.robot0Id < m.robot1Id) : s.candidateEdges.get?
      (m.robot0Id, m.robot0KeyframeId, m.robot1Id, m.robot1KeyframeId) = none := by
  rw [Option.eq_none_iff_forall_not_mem]
  intro c hc
  have hmem := Dict.get?_eq_some_iff.mp hc
  have hlt := edgeKey_lt (hfresh.robots _ hmem)
  rw [← hkeys _ hmem] at hlt
  exact horder hlt

/-- **`add_match`** for a pair that is not considered. -/
theorem get?_addMatch (hfresh : Fresh s)
    (hkeys : ∀ e ∈ s.candidateEdges.entries, e.1 = edgeKey e.2) {m : EdgeInterRobot}
    (hnew : edgeKey m ∉ s.alreadyConsideredMatches) (key : EdgeKey) :
    ((s.addMatch m).candidateEdges.get? key).map EdgeInterRobot.weight =
      if key = edgeKey m then some (weightAfter m (s.candidateEdges.get? key))
      else (s.candidateEdges.get? key).map EdgeInterRobot.weight := by
  have hadd : ∀ w, w = m.weight →
      ((s.addCandidateEdge m).candidateEdges.get? key).map EdgeInterRobot.weight =
        if key = edgeKey m then some w
        else (s.candidateEdges.get? key).map EdgeInterRobot.weight := by
    intro w hw
    rw [get?_addCandidateEdge hnew, hw]
    split_ifs
    · rfl
    · rfl
  unfold addMatch
  dsimp only
  by_cases horder : m.robot0Id < m.robot1Id
  · have hraw : (m.robot0Id, m.robot0KeyframeId, m.robot1Id, m.robot1KeyframeId) = edgeKey m := by
      rw [edgeKey, if_pos horder]
    rw [hraw]
    by_cases hkey : key = edgeKey m
    · subst hkey
      cases hget : s.candidateEdges.get? (edgeKey m) with
      | none => simpa [hget, weightAfter] using hadd m.weight rfl
      | some c =>
        simp only [weightAfter, if_pos horder]
        split_ifs with hw
        · rw [max_eq_right hw.le]
          simpa using hadd m.weight rfl
        · rw [hget, max_eq_left (not_lt.mp hw)]
          rfl
    · rw [if_neg hkey]
      have hother := hadd m.weight rfl
      rw [if_neg hkey] at hother
      split
      · split_ifs
        · exact hother
        · rfl
      · exact hother
  · rw [get?_eq_none_of_not_lt hfresh hkeys horder]
    refine hadd _ ?_
    cases s.candidateEdges.get? key with
    | none => rfl
    | some c => rw [weightAfter, if_neg horder]

/-! ### Runs -/

/-- Every pair that has been neither removed nor selected has a candidate if it has been reported,
and the candidate carries the largest weight reported. -/
def KeepsBest (tr : List (Event × List EdgeInterRobot)) (s : AlgebraicConnectivityMaximization) :
    Prop :=
  ∀ key, ¬ Taken tr key →
    (s.candidateEdges.get? key).map EdgeInterRobot.weight = (weightsOf tr key).max?

/-- A match with the larger robot first does not replace a heavier candidate. -/
def ReplacesNoHeavier (s : AlgebraicConnectivityMaximization) : Event → Prop
  | .addMatch m => m.robot1Id < m.robot0Id →
      ∀ c ∈ s.candidateEdges.get? (edgeKey m), c.weight ≤ m.weight
  | _ => True

instance (s : AlgebraicConnectivityMaximization) : DecidablePred s.ReplacesNoHeavier
  | .addMatch m => inferInstanceAs (Decidable (m.robot1Id < m.robot0Id →
      ∀ c ∈ s.candidateEdges.get? (edgeKey m), c.weight ≤ m.weight))
  | .addFixedEdge _ | .candidateEdgesToFixed _ | .removeCandidateEdges _
  | .selectCandidates _ _ _ _ => isTrue trivial

/-- What has been considered is what has been removed or selected. -/
theorem considered_iff_taken {R : Params} {tr : List (Event × List EdgeInterRobot)}
    (h : (selector R).Reaches tr s) (key : EdgeKey) :
    key ∈ s.alreadyConsideredMatches ↔ Taken tr key := by
  refine h.invariant (I := fun tr s => key ∈ s.alreadyConsideredMatches ↔ Taken tr key) ?_ ?_
  · exact iff_of_false (Finset.notMem_empty key) fun ⟨x, hx, _⟩ => absurd hx List.not_mem_nil
  · intro tr s e s' o hr ih _ hstep
    rw [considered_of_step (valid_of_reaches hr) hstep, ih, taken_concat]

/-- A match that has been considered changes nothing. -/
theorem addMatch_of_considered {m : EdgeInterRobot} (h : edgeKey m ∈ s.alreadyConsideredMatches) :
    s.addMatch m = s := by
  have hadd : s.addCandidateEdge m = s := if_pos h
  unfold addMatch
  dsimp only
  split
  · split_ifs
    · exact hadd
    · rfl
  · exact hadd

theorem Fresh.get?_eq_none (hfresh : Fresh s) {key : EdgeKey}
    (h : key ∈ s.alreadyConsideredMatches) : s.candidateEdges.get? key = none := by
  rw [Option.eq_none_iff_forall_not_mem]
  intro c hc
  exact hfresh.notConsidered _ (Dict.get?_eq_some_iff.mp hc) h

/-- The candidate carries the heavier weight afterwards unless a lighter match replaces it. -/
theorem weightAfter_eq_iff {m : EdgeInterRobot} (hm : m.robot0Id ≠ m.robot1Id)
    (candidate : Option EdgeInterRobot) :
    weightAfter m candidate =
        (candidate.map EdgeInterRobot.weight).elim m.weight (fun best => max best m.weight) ↔
      (m.robot1Id < m.robot0Id → ∀ c ∈ candidate, c.weight ≤ m.weight) := by
  cases candidate with
  | none => simp [weightAfter]
  | some c =>
    rcases Nat.lt_or_gt_of_ne hm with h | h
    · simp [weightAfter, h, h.not_gt]
    · simp [weightAfter, h, h.not_gt]

/-- A match leaves the best weight of its pair, and of the other pairs, if it replaces no heavier
candidate. -/
theorem KeepsBest.addMatch_iff {R : Params} {tr : List (Event × List EdgeInterRobot)}
    {m : EdgeInterRobot} (h : (selector R).Run TwoRobots tr s) (hc : s.TwoRobots (.addMatch m))
    (hbest : KeepsBest tr s) :
    KeepsBest (tr ++ [(.addMatch m, [])]) (s.addMatch m) ↔ s.ReplacesNoHeavier (.addMatch m) := by
  have hfresh : Fresh s := (returnedOnce_of_run h).fresh
  have hvalid : Valid R s := valid_of_reaches h.reaches
  have hsame : ∀ key, Taken (tr ++ [(.addMatch m, [])]) key ↔ Taken tr key := by
    intro key
    rw [taken_concat]
    simp [Event.removed]
  simp only [KeepsBest, hsame, weightsOf_concat_match]
  by_cases hnew : edgeKey m ∈ s.alreadyConsideredMatches
  · refine iff_of_true (fun key hkey => ?_) fun _ c hcand => ?_
    · have hne : edgeKey m ≠ key := by
        rintro rfl
        exact hkey ((considered_iff_taken h.reaches _).mp hnew)
      rw [addMatch_of_considered hnew, if_neg hne]
      exact hbest key hkey
    · rw [hfresh.get?_eq_none hnew] at hcand
      exact absurd hcand (Option.not_mem_none c)
  · simp only [get?_addMatch hfresh hvalid.keys hnew]
    have hnot : ¬ Taken tr (edgeKey m) := (considered_iff_taken h.reaches _).not.mp hnew
    rw [ReplacesNoHeavier, ← weightAfter_eq_iff hc, hbest _ hnot]
    constructor
    · intro hall
      have hm := hall _ hnot
      rw [if_pos rfl, if_pos rfl, max?_concat, Option.some.injEq] at hm
      exact hm
    · intro hm key hkey
      by_cases heq : edgeKey m = key
      · subst heq
        rw [if_pos rfl, if_pos rfl, max?_concat, hm]
      · rw [if_neg (Ne.symm heq), if_neg heq]
        exact hbest key hkey

/-- **Step lemma**: a step keeps the best weights if and only if it replaces no heavier
candidate. -/
theorem KeepsBest.step_iff {R : Params} {tr : List (Event × List EdgeInterRobot)} {e : Event}
    {o : List EdgeInterRobot} (h : (selector R).Run TwoRobots tr s) (hc : s.TwoRobots e)
    (hstep : (selector R).step s e = some (s', o)) (hbest : KeepsBest tr s) :
    KeepsBest (tr ++ [(e, o)]) s' ↔ s.ReplacesNoHeavier e := by
  have hfresh : Fresh s := (returnedOnce_of_run h).fresh
  have hvalid : Valid R s := valid_of_reaches h.reaches
  have htaken : ∀ key, key ∈ s'.alreadyConsideredMatches ↔ Taken (tr ++ [(e, o)]) key :=
    considered_iff_taken (.step h.reaches trivial hstep)
  have hother : e.reported = none → KeepsBest (tr ++ [(e, o)]) s' := by
    intro he key hkey
    rw [keeps_of_step hfresh hvalid he hstep key ((htaken key).not.mpr hkey),
      weightsOf_concat_of_reported he]
    exact hbest key fun ht => hkey (taken_concat.mpr (Or.inl ht))
  cases e with
  | addMatch m =>
    obtain ⟨-, rfl, rfl⟩ := selector_step_addMatch hstep
    exact hbest.addMatch_iff h hc
  | addFixedEdge => exact iff_of_true (hother rfl) trivial
  | candidateEdgesToFixed => exact iff_of_true (hother rfl) trivial
  | removeCandidateEdges => exact iff_of_true (hother rfl) trivial
  | selectCandidates => exact iff_of_true (hother rfl) trivial

/-- **A candidate keeps its best weight** all along a run if and only if no report with the larger
robot first replaces a heavier candidate. -/
theorem keepsBest_iff {R : Params} {tr : List (Event × List EdgeInterRobot)}
    (h : (selector R).Run TwoRobots tr s) :
    (∀ pre s₀, pre <+: tr → (selector R).Reaches pre s₀ → KeepsBest pre s₀) ↔
      (selector R).Run ReplacesNoHeavier tr s :=
  h.invariant_iff (I := KeepsBest) (fun _ _ => rfl) fun hrun hc hstep hbest =>
    hbest.step_iff hrun hc hstep

/-- The heavier of two reports stays in the order of the key, and after a heavier report in the
other order. -/
theorem keepsBest_two : ∃ tr s, (selector two).Reaches tr s ∧ tr.length = 3 ∧
    (∀ pre s₀, pre <+: tr → (selector two).Reaches pre s₀ → KeepsBest pre s₀) := by
  obtain ⟨tr, s, hr, hlen⟩ :=
    Machine.exists_run_of_exec (M := selector two)
      (C := fun s e => s.TwoRobots e ∧ s.ReplacesNoHeavier e)
      [.addMatch ⟨0, 1, 1, 3, 1 / 5⟩, .addMatch ⟨0, 1, 1, 3, 1 / 10⟩,
        .addMatch ⟨1, 3, 0, 1, 3 / 10⟩]
      (p := fun r => r.1.length = 3) (by decide +kernel) (by decide +kernel)
  exact ⟨tr, s, hr.reaches, hlen, (keepsBest_iff (hr.mono fun _ _ hc => hc.1)).mpr
    (hr.mono fun _ _ hc => hc.2)⟩

/-- The other robot reports the pair again, with half the weight. -/
theorem not_keepsBest : ¬ ∀ (R : Params) (tr : List (Event × List EdgeInterRobot))
    (s : AlgebraicConnectivityMaximization), (selector R).Run TwoRobots tr s →
    KeepsBest tr s := by
  intro h
  obtain ⟨tr, s, hr, htr, hweight⟩ :=
    Machine.exists_run_of_exec (M := selector two) (C := TwoRobots)
      [.addMatch ⟨0, 1, 1, 3, 1 / 5⟩, .addMatch ⟨1, 3, 0, 1, 1 / 10⟩]
      (p := fun r => (weightsOf r.1 (0, 1, 1, 3) = [1 / 5, 1 / 10] ∧
          ∀ x ∈ r.1, x.1.removed ++ x.2 = []) ∧
        (r.2.candidateEdges.get? (0, 1, 1, 3)).map EdgeInterRobot.weight = some (1 / 10))
      (by decide +kernel) (by decide +kernel)
  have hbest := h two tr s hr (0, 1, 1, 3) ?_
  · rw [hweight, htr.1] at hbest
    exact absurd hbest (by decide +kernel)
  · rintro ⟨x, hx, e, he, -⟩
    rw [htr.2 x hx] at he
    exact absurd he List.not_mem_nil

end AlgebraicConnectivityMaximization

end RoverSwarm.Selection
