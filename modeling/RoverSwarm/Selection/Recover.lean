import RoverSwarm.Selection.Rekey

/-!
# Selection.Recover — rekeying can be undone

The states here are those all methods that write to the object lead to, `set_graph` and the calls
the other methods make on the way included.  In each of them the keyframes of the candidates are
counted, and then the edges recovered from the rekeyed candidates are the candidates between
included robots.
-/

namespace RoverSwarm.Selection

open Transition

namespace AlgebraicConnectivityMaximization

/-- A call of a method that writes to the object. -/
inductive Operation
  | event (e : Event)
  | setGraph (fixedEdges candidateEdges : List EdgeInterRobot)
  | addCandidateEdge (edge : EdgeInterRobot)
  | updateNbPoses (edge : EdgeInterRobot)
  | updateInitialFixedEdgeExists (fixedEdge : EdgeInterRobot)
  | computeOffsets (isRobotIncluded : ℕ → Bool)
  | sparsificationComparisonLogs (rekeyedCandidateEdges : List Edge) (isRobotIncluded : ℕ → Bool)
      (greedyResult macResult : List Bool)

/-- All methods, in any order.  A call with an unknown robot and a call that raises end the run. -/
def operations (R : Params) :
    Machine AlgebraicConnectivityMaximization Operation (List EdgeInterRobot) where
  init := (selector R).init
  step s
    | .event e => (selector R).step s e
    | .setGraph fixedEdges candidateEdges =>
      if ∀ e ∈ fixedEdges ++ candidateEdges, e.Known R then
        some (s.setGraph fixedEdges candidateEdges, [])
      else none
    | .addCandidateEdge edge =>
      if edge.Known R then some (s.addCandidateEdge edge, []) else none
    | .updateNbPoses edge => if edge.Known R then some (s.updateNbPoses edge, []) else none
    | .updateInitialFixedEdgeExists fixedEdge => some (s.updateInitialFixedEdgeExists fixedEdge, [])
    | .computeOffsets isRobotIncluded => some (s.computeOffsets isRobotIncluded, [])
    | .sparsificationComparisonLogs edges isRobotIncluded greedyResult macResult =>
      some (s.sparsificationComparisonLogs edges isRobotIncluded greedyResult macResult, [])

variable {R : Params} {s s' : AlgebraicConnectivityMaximization} {inc : ℕ → Bool}

/-! ### `set_graph` -/

theorem foldl_updateNbPoses_counted {edges : List EdgeInterRobot}
    (hknown : ∀ e ∈ edges, e.robot0Id < s.maxNbRobots ∧ e.robot1Id < s.maxNbRobots) :
    ∀ e ∈ edges, (edges.foldl updateNbPoses s).Counted e := by
  induction edges generalizing s with
  | nil => exact fun e he => absurd he List.not_mem_nil
  | cons e es ih =>
    intro e' he'
    rw [List.foldl_cons]
    rcases List.mem_cons.mp he' with rfl | he'
    · obtain ⟨h0, h1⟩ := hknown e' List.mem_cons_self
      exact (updateNbPoses_counted h0 h1).of_extends (foldl_extends updateNbPoses_extends _ es)
    · have hmax : (s.updateNbPoses e).maxNbRobots = s.maxNbRobots := rfl
      exact ih (fun e₂ he₂ => hmax ▸ hknown e₂ (List.mem_cons_of_mem e he₂)) e' he'

/-- What the loop over the new candidates stores is theirs, under their keys, or was there. -/
theorem mem_foldl_set {edges : List EdgeInterRobot} {d : Dict EdgeKey EdgeInterRobot}
    {p : EdgeKey × EdgeInterRobot}
    (hp : p ∈ (edges.foldl (fun d e => d.set (edgeKey e) e) d).entries) :
    (p.1 = edgeKey p.2 ∧ p.2 ∈ edges) ∨ p ∈ d.entries := by
  induction edges generalizing d with
  | nil => exact Or.inr hp
  | cons e es ih =>
    rw [List.foldl_cons] at hp
    rcases ih hp with ⟨hkey, hmem⟩ | hmem
    · exact Or.inl ⟨hkey, List.mem_cons_of_mem e hmem⟩
    · rcases Dict.mem_set hmem with rfl | hold
      · exact Or.inl ⟨rfl, List.mem_cons_self⟩
      · exact Or.inr hold

theorem Valid.setGraph (h : Valid R s) {fixedEdges candidateEdges : List EdgeInterRobot}
    (hknown : ∀ e ∈ fixedEdges ++ candidateEdges, e.Known R) :
    Valid R (s.setGraph fixedEdges candidateEdges) := by
  have hfixed : Extends { s with fixedEdges := fixedEdges } (fixedEdges.foldl
      (fun s e => (s.updateNbPoses e).updateInitialFixedEdgeExists e)
      { s with fixedEdges := fixedEdges }) :=
    foldl_extends (fun s e => (updateNbPoses_extends s e).trans
      (updateInitialFixedEdgeExists_extends _ e)) _ fixedEdges
  have hposes := foldl_extends updateNbPoses_extends (fixedEdges.foldl
    (fun s e => (s.updateNbPoses e).updateInitialFixedEdgeExists e)
    { s with fixedEdges := fixedEdges }) candidateEdges
  have hext := hfixed.trans hposes
  have hmax := hfixed.maxNbRobots.trans h.maxNbRobots
  refine ⟨hext.maxNbRobots.trans h.maxNbRobots, fun p hp => ?_, fun p hp => ?_⟩
  · rcases mem_foldl_set hp with ⟨hkey, -⟩ | hold
    · exact hkey
    · exact h.keys p (hext.candidates hold)
  · have hcounted : (candidateEdges.foldl AlgebraicConnectivityMaximization.updateNbPoses
        (fixedEdges.foldl (fun s e => (s.updateNbPoses e).updateInitialFixedEdgeExists e)
          { s with fixedEdges := fixedEdges })).Counted p.2 := by
      rcases mem_foldl_set hp with ⟨-, hmem⟩ | hold
      · refine foldl_updateNbPoses_counted (fun e he => ?_) p.2 hmem
        rw [hmax]
        exact hknown e (List.mem_append_right fixedEdges he)
      · exact (h.counted p (hext.candidates hold)).mono hext.maxNbRobots hext.nbPoses
    exact ⟨hcounted.robot0, hcounted.robot1, hcounted.keyframe0, hcounted.keyframe1⟩

/-! ### The reachable states -/

/-- **Step lemma**, one case per method. -/
theorem Valid.operation (h : Valid R s) {c : Operation} {o : List EdgeInterRobot}
    (hstep : (operations R).step s c = some (s', o)) : Valid R s' := by
  cases c with
  | event e => exact h.step hstep
  | setGraph fixedEdges candidateEdges =>
    obtain ⟨hknown, heq⟩ := Option.ite_none_right_eq_some.mp hstep
    obtain ⟨rfl, -⟩ := Prod.mk.inj (Option.some.inj heq)
    exact h.setGraph hknown
  | addCandidateEdge edge =>
    obtain ⟨hknown, heq⟩ := Option.ite_none_right_eq_some.mp hstep
    obtain ⟨rfl, -⟩ := Prod.mk.inj (Option.some.inj heq)
    exact h.addCandidateEdge hknown
  | updateNbPoses edge =>
    obtain ⟨-, heq⟩ := Option.ite_none_right_eq_some.mp hstep
    obtain ⟨rfl, -⟩ := Prod.mk.inj (Option.some.inj heq)
    exact h.of_extends (updateNbPoses_extends s edge)
  | updateInitialFixedEdgeExists fixedEdge =>
    obtain ⟨rfl, -⟩ := Prod.mk.inj (Option.some.inj hstep)
    exact h.of_extends (updateInitialFixedEdgeExists_extends s fixedEdge)
  | computeOffsets isRobotIncluded =>
    obtain ⟨rfl, -⟩ := Prod.mk.inj (Option.some.inj hstep)
    exact h.of_extends ⟨rfl, List.Subset.refl _, fun _ => le_rfl⟩
  | sparsificationComparisonLogs edges isRobotIncluded greedyResult macResult =>
    obtain ⟨rfl, -⟩ := Prod.mk.inj (Option.some.inj hstep)
    exact h.of_extends ⟨rfl, List.Subset.refl _, fun _ => le_rfl⟩

theorem valid_of_operations {tr : List (Operation × List EdgeInterRobot)}
    (h : (operations R).Reaches tr s) : Valid R s := by
  have hinit : Valid R (operations R).init := Valid.init R
  exact h.invariant (I := fun _ s => Valid R s) hinit
    fun _ _ _ _ _ _ hvalid _ hstep => hvalid.operation hstep

/-! ### The round trip -/

theorem recover_rekey_of_counted {edges : List EdgeInterRobot} (h : ∀ e ∈ edges, s.Counted e) :
    (s.computeOffsets inc).recoverInterRobotEdges
        ((s.computeOffsets inc).rekeyEdges edges inc) inc = getIncludedEdges edges inc := by
  unfold recoverInterRobotEdges rekeyEdges
  rw [List.map_map]
  conv_rhs => rw [← List.map_id (getIncludedEdges edges inc)]
  refine List.map_congr_left fun e he => ?_
  obtain ⟨hmem, hinc⟩ := List.mem_filter.mp he
  rw [Bool.and_eq_true] at hinc
  exact recoverEdge_rekeyEdge (h e hmem) hinc.1 hinc.2 e.weight

/-- **Rekeying can be undone**: for any robots included, the edges recovered from the rekeyed
candidates are the candidates between included robots. -/
theorem recover_rekey_candidates (R : Params) (tr : List (Operation × List EdgeInterRobot))
    (s : AlgebraicConnectivityMaximization) (h : (operations R).Reaches tr s) (inc : ℕ → Bool) :
    (s.computeOffsets inc).recoverInterRobotEdges
        ((s.computeOffsets inc).rekeyEdges (s.computeOffsets inc).candidateEdges.values inc) inc =
      getIncludedEdges s.candidateEdges.values inc := by
  refine recover_rekey_of_counted fun e he => ?_
  obtain ⟨entry, hentry, rfl⟩ := List.mem_map.mp he
  exact (valid_of_operations h).counted entry hentry

def four : Params where
  robotId := 1
  maxNbRobots := 4
  maxIters := 20
  fixedWeight := 1
  enableSparsification := true
  enableSparsificationComparison := false

/-- Robot 0 is left out, so robot 1 has the node ids from 0; robot 2 is included without a pose, and
robots 2 and 3 share an offset. -/
theorem recover_rekey_candidates_four : ∃ tr s, (operations four).Reaches tr s ∧
    (s.computeOffsets fun r => r != 0).offsets 2 = (s.computeOffsets fun r => r != 0).offsets 3 ∧
    getIncludedEdges s.candidateEdges.values (fun r => r != 0) =
      [⟨1, 1, 3, 4, 1 / 2⟩, ⟨3, 0, 1, 0, 3 / 4⟩] ∧
    (s.computeOffsets fun r => r != 0).recoverInterRobotEdges ((s.computeOffsets
      fun r => r != 0).rekeyEdges (s.computeOffsets fun r => r != 0).candidateEdges.values
        fun r => r != 0) (fun r => r != 0) =
      getIncludedEdges s.candidateEdges.values fun r => r != 0 := by
  obtain ⟨tr, s, hr, hoffsets, hincluded⟩ :=
    Machine.exists_reaches_of_exec (M := operations four)
      [.setGraph [] [⟨0, 2, 1, 0, 1 / 4⟩, ⟨1, 1, 3, 4, 1 / 2⟩],
        .event (.addMatch ⟨3, 0, 1, 0, 3 / 4⟩)]
      (p := fun r => (r.2.computeOffsets fun r => r != 0).offsets 2 =
          (r.2.computeOffsets fun r => r != 0).offsets 3 ∧
        getIncludedEdges r.2.candidateEdges.values (fun r => r != 0) =
          [⟨1, 1, 3, 4, 1 / 2⟩, ⟨3, 0, 1, 0, 3 / 4⟩]) (by decide +kernel)
  exact ⟨tr, s, hr, hoffsets, hincluded, recover_rekey_candidates four tr s hr _⟩

end AlgebraicConnectivityMaximization

end RoverSwarm.Selection
