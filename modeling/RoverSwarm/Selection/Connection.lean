import Mathlib.Data.List.MinMax
import RoverSwarm.Selection.Rekey

/-!
# Selection.Connection — how many edges the connection-biased selection picks

The loops over the robots give each robot without a fixed edge its heaviest candidate, where a
candidate given away before counts for nothing (`choices`, `connectionLoop_eq`).  The greedy
selection then fills the budget from the candidates with these residual weights.  It comes out at
the budget if and only if `Fits` holds: nobody was given a candidate twice, and enough other
candidates have a positive weight to keep the greedy selection away from the ones given.
-/

namespace RoverSwarm.Selection

open TopK

variable {edges : List EdgeInterRobot} {given : List ℕ}

/-! ### Giving candidates to robots -/

def EdgeInterRobot.Touches (e : EdgeInterRobot) (rid : ℕ) : Prop :=
  e.robot0Id = rid ∨ e.robot1Id = rid

instance (e : EdgeInterRobot) (rid : ℕ) : Decidable (e.Touches rid) :=
  inferInstanceAs (Decidable (_ ∨ _))

/-- The weight of candidate `i` when those given away count for nothing. -/
def residual (edges : List EdgeInterRobot) (given : List ℕ) (i : ℕ) : ℚ :=
  if i ∈ given then 0 else (edges.map EdgeInterRobot.weight).getD i default

/-- Candidate `i` is an edge of the robot, of weight above -1. -/
def offered (edges : List EdgeInterRobot) (given : List ℕ) (rid i : ℕ) : Bool :=
  edges[i]?.any (fun e => e.Touches rid) && decide (-1 < residual edges given i)

theorem offered_iff {rid i : ℕ} : offered edges given rid i = true ↔
    edges[i]?.any (fun e => e.Touches rid) = true ∧ -1 < residual edges given i := by
  rw [offered, Bool.and_eq_true, decide_eq_true_iff]

/-- The candidates a robot can be given. -/
def offers (edges : List EdgeInterRobot) (given : List ℕ) (rid : ℕ) : List ℕ :=
  (List.range edges.length).filter (offered edges given rid)

/-- The heaviest candidate for a robot, the first one among equals. -/
def choice (edges : List EdgeInterRobot) (given : List ℕ) (rid : ℕ) : Option ℕ :=
  (offers edges given rid).argmax (residual edges given)

/-- What the robots are given, one after the other, beyond `given`. -/
def choices (edges : List EdgeInterRobot) : List ℕ → List ℕ → List ℕ
  | given, [] => given
  | given, rid :: rids => choices edges (given ++ (choice edges given rid).toList) rids

theorem choice_lt {rid i : ℕ} (h : choice edges given rid = some i) : i < edges.length :=
  List.mem_range.mp (List.mem_filter.mp (List.argmax_mem h)).1

theorem choices_lt {rids : List ℕ} (hgiven : ∀ i ∈ given, i < edges.length) :
    ∀ i ∈ choices edges given rids, i < edges.length := by
  induction rids generalizing given with
  | nil => exact hgiven
  | cons rid rids ih =>
    refine ih fun i hi => ?_
    rcases List.mem_append.mp hi with hi | hi
    · exact hgiven i hi
    · exact choice_lt (Option.mem_toList.mp hi)

/-! ### The loops -/

/-- The copy of the edges with the weights of those given set to zero. -/
def zeroed (edges : List EdgeInterRobot) (given : List ℕ) : List EdgeInterRobot :=
  edges.mapIdx fun i e => if i ∈ given then { e with weight := 0 } else e

@[simp] theorem zeroed_length : (zeroed edges given).length = edges.length := List.length_mapIdx

@[simp] theorem zeroed_nil : zeroed edges [] = edges := by
  refine List.ext_getElem? fun i => ?_
  rw [zeroed, List.getElem?_mapIdx]
  simp

theorem zeroed_getElem? (i : ℕ) : (zeroed edges given)[i]? =
    edges[i]?.map fun e => { e with weight := residual edges given i } := by
  rw [zeroed, List.getElem?_mapIdx]
  cases h : edges[i]? with
  | none => rfl
  | some e =>
    unfold residual
    rw [Option.map_some, Option.map_some, List.getD_eq_getElem?_getD, List.getElem?_map, h]
    split_ifs
    · rfl
    · rfl

theorem zeroed_modify (j : ℕ) :
    (zeroed edges given).modify j (fun e => { e with weight := 0 }) =
      zeroed edges (given ++ [j]) := by
  refine List.ext_getElem? fun i => ?_
  rw [List.getElem?_modify, zeroed_getElem?, zeroed_getElem?]
  unfold residual
  by_cases hi : j = i
  · subst hi
    cases edges[j]? <;> simp
  · have hmem : i ∈ given ++ [j] ↔ i ∈ given := by simp [Ne.symm hi]
    cases edges[i]? <;> simp [hi, hmem]

theorem heaviestStep_zeroed (rid : ℕ) (l : AlgebraicConnectivityMaximization.HeaviestLoop)
    (i : ℕ) :
    AlgebraicConnectivityMaximization.heaviestStep (zeroed edges given) rid l i =
      if edges[i]?.any (fun e => e.Touches rid) = true ∧ l.maxWeight < residual edges given i then
        ⟨residual edges given i, some i⟩
      else l := by
  unfold AlgebraicConnectivityMaximization.heaviestStep
  rw [zeroed_getElem?]
  cases h : edges[i]? with
  | none => simp
  | some e =>
    simp only [Option.map_some, Option.any_some, decide_eq_true_iff]
    rfl

/-- The inner loop after the candidates below `n`. -/
theorem heaviestLoop_range (rid n : ℕ) :
    let l := (List.range n).foldl
      (AlgebraicConnectivityMaximization.heaviestStep (zeroed edges given) rid) {}
    let best := ((List.range n).filter (offered edges given rid)).argmax (residual edges given)
    l.maxEdge = best ∧ l.maxWeight = (best.map (residual edges given)).getD (-1) ∧
      -1 ≤ l.maxWeight := by
  induction n with
  | zero => exact ⟨rfl, rfl, le_rfl⟩
  | succ n ih =>
    obtain ⟨hedge, hweight, hge⟩ := ih
    rw [List.range_succ, List.foldl_concat, heaviestStep_zeroed, List.filter_append]
    by_cases hoffered : offered edges given rid n = true
    · -- the candidate is compared with the best one so far
      obtain ⟨htouches, habove⟩ := offered_iff.mp hoffered
      rw [List.filter_cons_of_pos hoffered, List.filter_nil, List.argmax_concat]
      cases hbest : ((List.range n).filter (offered edges given rid)).argmax
          (residual edges given) with
      | none =>
        rw [hbest] at hweight
        rw [if_pos ⟨htouches, by rw [hweight]; exact habove⟩]
        exact ⟨rfl, rfl, habove.le⟩
      | some c =>
        rw [hbest] at hweight hedge
        have hc : _ = residual edges given c := hweight
        rw [hc]
        by_cases hlt : residual edges given c < residual edges given n
        · rw [if_pos ⟨htouches, hlt⟩]
          dsimp only
          rw [if_pos hlt]
          exact ⟨rfl, rfl, habove.le⟩
        · rw [if_neg fun h => hlt h.2]
          dsimp only
          rw [if_neg hlt]
          exact ⟨hedge, hc, hge⟩
    · rw [List.filter_cons_of_neg hoffered, List.filter_nil, List.append_nil,
        if_neg fun h => hoffered (offered_iff.mpr ⟨h.1, hge.trans_lt h.2⟩)]
      exact ⟨hedge, hweight, hge⟩

/-- **Refinement** of the inner loop: it finds the robot's choice. -/
theorem heaviestEdge_zeroed (rid : ℕ) :
    AlgebraicConnectivityMaximization.heaviestEdge (zeroed edges given) rid =
      choice edges given rid := by
  unfold AlgebraicConnectivityMaximization.heaviestEdge
  rw [zeroed_length]
  exact (heaviestLoop_range rid edges.length).1

/-- **Refinement** of the outer loop: it gives the robots without a fixed edge their choices. -/
theorem connectionLoop_eq (s : AlgebraicConnectivityMaximization) (edges : List EdgeInterRobot)
    (given rids : List ℕ) :
    rids.foldl s.connectionStep { edgesCopy := zeroed edges given, edgesIdsToSelect := given } =
      let chosen := choices edges given (rids.filter fun r => !s.initialFixedEdgeExists r)
      { edgesCopy := zeroed edges chosen, edgesIdsToSelect := chosen } := by
  induction rids generalizing given with
  | nil => rfl
  | cons rid rids ih =>
    rw [List.foldl_cons]
    by_cases hfixed : s.initialFixedEdgeExists rid = true
    · have hstep : s.connectionStep
          { edgesCopy := zeroed edges given, edgesIdsToSelect := given } rid =
          { edgesCopy := zeroed edges given, edgesIdsToSelect := given } := by
        simp [AlgebraicConnectivityMaximization.connectionStep, hfixed]
      rw [hstep, ih, List.filter_cons_of_neg (by simp [hfixed])]
    · have hstep : s.connectionStep
          { edgesCopy := zeroed edges given, edgesIdsToSelect := given } rid =
          { edgesCopy := zeroed edges (given ++ (choice edges given rid).toList)
            edgesIdsToSelect := given ++ (choice edges given rid).toList } := by
        unfold AlgebraicConnectivityMaximization.connectionStep
        rw [heaviestEdge_zeroed]
        cases choice edges given rid with
        | none => simp [hfixed]
        | some i => simp [hfixed, zeroed_modify]
      rw [hstep, ih, List.filter_cons_of_pos (by simp [hfixed])]
      rfl

/-! ### Filling the budget -/

/-- What the greedy selection adds to the candidates given away. -/
def filled (argpartition : Argpartition ℚ) (edges : List EdgeInterRobot) (given : List ℕ)
    (nb : ℕ) : List ℕ :=
  if given.length < nb then
    lastSlice (nb - given.length) (argpartition.run
      ((zeroed edges given).map EdgeInterRobot.weight) (edges.length - (nb - given.length)))
  else []

/-- The number of other candidates of positive weight. -/
def spare (edges : List EdgeInterRobot) (given : List ℕ) : ℕ :=
  ((Finset.range edges.length).filter fun i =>
    i ∉ given ∧ 0 < (edges.map EdgeInterRobot.weight).getD i default).card

/-- The candidates given away and the budget fit each other. -/
def Fits (edges : List EdgeInterRobot) (given : List ℕ) (nb : ℕ) : Prop :=
  if given.length < nb then
    given.Nodup ∧ (given = [] ∨ nb - given.length ≤ spare edges given)
  else given.toFinset.card = nb

instance (edges : List EdgeInterRobot) (given : List ℕ) (nb : ℕ) :
    Decidable (Fits edges given nb) :=
  inferInstanceAs (Decidable (if given.length < nb then
    given.Nodup ∧ (given = [] ∨ nb - given.length ≤ spare edges given)
    else given.toFinset.card = nb))

theorem zeroed_weights_getD {i : ℕ} (hi : i < edges.length) :
    ((zeroed edges given).map EdgeInterRobot.weight).getD i default = residual edges given i := by
  rw [List.getD_eq_getElem?_getD, List.getElem?_map, zeroed_getElem?, List.getElem?_eq_getElem hi]
  rfl

/-- The candidates of positive residual weight are those of positive weight not given away. -/
theorem residual_pos_iff {i : ℕ} : 0 < residual edges given i ↔
    i ∉ given ∧ 0 < (edges.map EdgeInterRobot.weight).getD i default := by
  unfold residual
  split_ifs with h
  · simp [h]
  · simp [h]

theorem filled_greatest {A : Argpartition ℚ} {nb : ℕ} (hlt : given.length < nb)
    (hnb : nb ≤ edges.length) :
    Greatest ((zeroed edges given).map EdgeInterRobot.weight) (nb - given.length)
      (filled A edges given nb) := by
  have h := A.greatest (w := (zeroed edges given).map EdgeInterRobot.weight)
    (k := nb - given.length) (by omega) (by rw [List.length_map, zeroed_length]; omega)
  rw [List.length_map, zeroed_length] at h
  rw [filled, if_pos hlt]
  exact h

theorem filled_lt {A : Argpartition ℚ} {nb : ℕ} (hnb : nb ≤ edges.length) :
    ∀ i ∈ filled A edges given nb, i < edges.length := by
  intro i hi
  by_cases hlt : given.length < nb
  · have h := (filled_greatest hlt hnb).lt i hi
    rwa [List.length_map, zeroed_length] at h
  · rw [filled, if_neg hlt] at hi
    exact absurd hi List.not_mem_nil

/-- The greedy selection comes out at the budget if the robots were given different candidates, and
it takes none of them. -/
theorem card_filled_eq_iff {A : Argpartition ℚ} {nb : ℕ} (hlt : given.length < nb)
    (hnb : nb ≤ edges.length) :
    ((filled A edges given nb).toFinset ∪ given.toFinset).card = nb ↔
      given.Nodup ∧ ∀ i ∈ filled A edges given nb, i ∉ given := by
  have h := filled_greatest (A := A) hlt hnb
  have hlength : (filled A edges given nb).length + given.length = nb := by
    rw [h.length]
    omega
  rw [← card_union_eq_length_iff h.nodup, hlength]

/-- **Enough**: if the candidates fit, every selection comes out at the budget. -/
theorem Fits.card_eq {nb : ℕ} (h : Fits edges given nb) (A : Argpartition ℚ)
    (hnb : nb ≤ edges.length) :
    ((filled A edges given nb).toFinset ∪ given.toFinset).card = nb := by
  unfold Fits at h
  by_cases hlt : given.length < nb
  · rw [if_pos hlt] at h
    refine (card_filled_eq_iff hlt hnb).mpr ⟨h.1, fun i hi => ?_⟩
    rcases h.2 with hnil | hcount
    · rw [hnil]
      exact List.not_mem_nil
    · have hgreatest := filled_greatest (A := A) hlt hnb
      have hi' : i < edges.length := filled_lt hnb i hi
      have hpos := hgreatest.above (t := 0) ?_ i hi
      · rw [zeroed_weights_getD hi'] at hpos
        exact (residual_pos_iff.mp hpos).1
      · refine hcount.trans (Finset.card_le_card fun j hj => ?_)
        obtain ⟨hj, hfree⟩ := Finset.mem_filter.mp hj
        rw [Finset.mem_filter, List.length_map, zeroed_length,
          zeroed_weights_getD (Finset.mem_range.mp hj)]
        exact ⟨hj, residual_pos_iff.mpr hfree⟩
  · rw [if_neg hlt] at h
    rw [filled, if_neg hlt, List.toFinset_nil, Finset.empty_union]
    exact h

/-- What a partial sort with a choice among equals leaves out is ranked below what it takes. -/
theorem filled_ranked {tie : ℕ → Bool} {nb i j : ℕ} (hi : i ∈ filled (sorted tie) edges given nb)
    (hj : j < edges.length) (hnotin : j ∉ filled (sorted tie) edges given nb) :
    ranked ((zeroed edges given).map EdgeInterRobot.weight) tie j i = true := by
  have hlength : edges.length = ((zeroed edges given).map EdgeInterRobot.weight).length := by
    rw [List.length_map, zeroed_length]
  unfold filled at hi hnotin
  split_ifs at hi hnotin with hlt
  · rw [hlength] at hi hj hnotin
    exact sorted_last (by omega) hi hj hnotin
  · exact absurd hi List.not_mem_nil

/-- **Needed**: a partial sort that prefers the candidates given away comes out at the budget only
if they fit. -/
theorem fits_of_card_eq {nb : ℕ} (hgiven : ∀ i ∈ given, i < edges.length)
    (hnb : nb ≤ edges.length)
    (h : ((filled (sorted fun i => i ∈ given) edges given nb).toFinset ∪ given.toFinset).card = nb) :
    Fits edges given nb := by
  unfold Fits
  by_cases hlt : given.length < nb
  · rw [if_pos hlt]
    obtain ⟨hnodup, hdisjoint⟩ := (card_filled_eq_iff hlt hnb).mp h
    refine ⟨hnodup, or_iff_not_imp_left.mpr fun hne => ?_⟩
    obtain ⟨d, hd⟩ := List.exists_mem_of_ne_nil _ hne
    have hgreatest := filled_greatest (A := sorted fun i => i ∈ given) hlt hnb
    -- all that is taken outranks `d`, which weighs nothing and is preferred among equals
    have hpos : ∀ i ∈ filled (sorted fun i => i ∈ given) edges given nb,
        i ∉ given ∧ 0 < (edges.map EdgeInterRobot.weight).getD i default := by
      intro i hi
      have hranked := filled_ranked hi (hgiven d hd) fun hmem => hdisjoint d hmem hd
      have hd0 : residual edges given d = 0 := if_pos hd
      rw [ranked, decide_eq_true_iff, Prod.Lex.toLex_le_toLex, zeroed_weights_getD (hgiven d hd),
        zeroed_weights_getD (filled_lt hnb i hi), hd0, decide_eq_true hd,
        decide_eq_false (hdisjoint i hi)] at hranked
      rcases hranked with hlt | ⟨-, hle⟩
      · exact residual_pos_iff.mp hlt
      · exact absurd (hle rfl) Bool.false_ne_true
    rw [← hgreatest.length, ← List.toFinset_card_of_nodup hgreatest.nodup]
    refine Finset.card_le_card fun i hi => ?_
    rw [List.mem_toFinset] at hi
    exact Finset.mem_filter.mpr ⟨Finset.mem_range.mpr (filled_lt hnb i hi), hpos i hi⟩
  · rw [if_neg hlt]
    rw [filled, if_neg hlt, List.toFinset_nil, Finset.empty_union] at h
    exact h

/-! ### The selection vector -/

open AlgebraicConnectivityMaximization

/-- The included robots without a fixed edge. -/
def AlgebraicConnectivityMaximization.unconnected (s : AlgebraicConnectivityMaximization)
    (inc : ℕ → Bool) : List ℕ :=
  ((List.range s.maxNbRobots).filter fun r => inc r).filter fun r => !s.initialFixedEdgeExists r

/-- The vector of the last `k` positions of a partial sort of the weights. -/
def greedyVector (A : Argpartition ℚ) (k : ℕ) (es : List Edge) : List Bool :=
  oneHot es.length (lastSlice k
    (A.run (es.map Edge.weight) (if k = 0 then 0 else es.length - k)))

@[simp] theorem length_greedyVector (A : Argpartition ℚ) (k : ℕ) (es : List Edge) :
    (greedyVector A k es).length = es.length := length_oneHot _ _

theorem greedyInitialization_eq (A : Argpartition ℚ) (k : ℕ) (es : List Edge) :
    greedyInitialization A k es =
      if 0 < es.length ∧ es.length < k then none else some (greedyVector A k es) := by
  unfold greedyInitialization greedyVector
  dsimp only
  rw [List.length_map]

theorem greedyInitialization_of_le (A : Argpartition ℚ) {k : ℕ} {es : List Edge}
    (hk : k ≤ es.length) : greedyInitialization A k es = some (greedyVector A k es) := by
  rw [greedyInitialization_eq, if_neg fun h => not_lt.mpr hk h.2]

/-- The included edges stay included when weights change. -/
theorem rekeyEdges_zeroed_weights (s : AlgebraicConnectivityMaximization) {inc : ℕ → Bool}
    (hinc : getIncludedEdges edges inc = edges) :
    (s.rekeyEdges (zeroed edges given) inc).map Edge.weight =
      (zeroed edges given).map EdgeInterRobot.weight := by
  have hkeep : getIncludedEdges (zeroed edges given) inc = zeroed edges given := by
    refine List.filter_eq_self.mpr fun e he => ?_
    obtain ⟨i, hi⟩ := List.mem_iff_getElem?.mp he
    rw [zeroed_getElem?] at hi
    obtain ⟨c, hc, rfl⟩ := Option.map_eq_some_iff.mp hi
    exact List.filter_eq_self.mp hinc c (List.mem_of_getElem? hc)
  rw [rekeyEdges, hkeep, List.map_map]
  rfl

theorem length_rekeyEdges_zeroed (s : AlgebraicConnectivityMaximization) {inc : ℕ → Bool}
    (hinc : getIncludedEdges edges inc = edges) :
    (s.rekeyEdges (zeroed edges given) inc).length = edges.length := by
  have hweights : (s.rekeyEdges (zeroed edges given) inc).map Edge.weight =
      (zeroed edges given).map EdgeInterRobot.weight := rekeyEdges_zeroed_weights s hinc
  have h := congrArg List.length hweights
  rwa [List.length_map, List.length_map, zeroed_length] at h

/-- The candidates given away are set in what the greedy selection makes of the other ones. -/
theorem connectionBiased_eq (s : AlgebraicConnectivityMaximization) (A : Argpartition ℚ) (nb : ℕ)
    (edges : List EdgeInterRobot) (inc : ℕ → Bool) :
    s.connectionBiasedGreedySelection A nb edges inc =
      let given := choices edges [] (s.unconnected inc)
      (if given.length < nb then greedyInitialization A (nb - given.length)
        (s.rekeyEdges (zeroed edges given) inc) else some (oneHot edges.length [])).map
          fun wInit => setOnes wInit given := by
  have hloop := connectionLoop_eq s edges [] ((List.range s.maxNbRobots).filter fun r => inc r)
  rw [zeroed_nil] at hloop
  unfold connectionBiasedGreedySelection
  dsimp only
  rw [hloop]
  rfl

/-- **The connection-biased selection** raises when the budget left for the greedy selection is above
the number of candidates, and else it takes the candidates given away and the greedy filling. -/
theorem connectionBiased_spec (s : AlgebraicConnectivityMaximization) (A : Argpartition ℚ)
    {inc : ℕ → Bool} (hinc : getIncludedEdges edges inc = edges) (nb : ℕ) :
    let given := choices edges [] (s.unconnected inc)
    s.connectionBiasedGreedySelection A nb edges inc =
      if 0 < edges.length ∧ edges.length + given.length < nb then none
      else some (setOnes (oneHot edges.length (filled A edges given nb)) given) := by
  rw [connectionBiased_eq]
  dsimp only
  generalize choices edges [] (s.unconnected inc) = given
  by_cases hlt : given.length < nb
  · have hvector : greedyVector A (nb - given.length) (s.rekeyEdges (zeroed edges given) inc) =
        oneHot edges.length (filled A edges given nb) := by
      unfold greedyVector filled
      rw [rekeyEdges_zeroed_weights s hinc, length_rekeyEdges_zeroed s hinc,
        if_neg (Nat.sub_ne_zero_of_lt hlt), if_pos hlt]
    rw [if_pos hlt, greedyInitialization_eq, length_rekeyEdges_zeroed s hinc, hvector]
    by_cases hbound : 0 < edges.length ∧ edges.length + given.length < nb
    · rw [if_pos hbound, if_pos ⟨hbound.1, by omega⟩]
      rfl
    · rw [if_neg hbound, if_neg fun h => hbound ⟨h.1, by omega⟩]
      rfl
  · rw [if_neg hlt, if_neg (by omega), filled, if_neg hlt]
    rfl

/-- The ones of the vector, for a budget up to the number of candidates. -/
theorem length_ones_connectionBiased (A : Argpartition ℚ) {nb : ℕ} (hnb : nb ≤ edges.length)
    (hgiven : ∀ i ∈ given, i < edges.length) :
    (ones (setOnes (oneHot edges.length (filled A edges given nb)) given)).length =
      ((filled A edges given nb).toFinset ∪ given.toFinset).card := by
  rw [card_ones_setOnes (by simpa using hgiven), toFinset_ones_oneHot (filled_lt hnb)]

end RoverSwarm.Selection
