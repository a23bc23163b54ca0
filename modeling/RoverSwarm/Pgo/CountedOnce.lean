import RoverSwarm.Pgo.Aggregate

/-!
# Pgo.CountedOnce — measurements between robots in the aggregate

The aggregation keeps the pairs of keys it has pushed, so that a factor that comes from several
graphs is pushed once.  The pairs are ordered, and a loop closure is stored from the robot that
reports it to the other one: reported by both, the same two keyframes come in both orders, and are
pushed twice.  That is the only way to push them twice.
-/

namespace RoverSwarm.Pgo

open Transition

variable {P : Type*} {R : Params} {s s' : State P} {connected : ℕ → Bool}

/-! ### Pushing -/

def ends (f : BetweenFactor P) : LabeledSymbol × LabeledSymbol := (f.key1, f.key2)

/-- Both keys of the factor have an estimate. -/
def Estimated (estimates : Values P) (f : BetweenFactor P) : Prop :=
  estimates.contains f.key1 = true ∧ estimates.contains f.key2 = true

/-- What is pushed are the pairs of keys that have estimates and are new, each once. -/
theorem exists_pushed (estimates : Values P) (l : FactorGraph P) (a : Added P) :
    ∃ pushed, (l.foldl (Added.push estimates) a).graph = a.graph ++ pushed ∧
      (pushed.map ends).Nodup ∧
      ∀ e, e ∈ pushed.map ends ↔
        e ∉ a.addedLoopClosures ∧ ∃ f ∈ l, Estimated estimates f ∧ ends f = e := by
  induction l generalizing a with
  | nil => exact ⟨[], by simp⟩
  | cons g l ih =>
    obtain ⟨pushed, hgraph, hnodup, hmem⟩ := ih (Added.push estimates a g)
    rw [List.foldl_cons]
    by_cases hg : Estimated estimates g ∧ ends g ∉ a.addedLoopClosures
    · have hpush : Added.push estimates a g =
          ⟨a.graph ++ [g], insert (ends g) a.addedLoopClosures⟩ :=
        if_pos (by simpa [Estimated, ends, and_assoc] using hg)
      rw [hpush] at hgraph hmem ⊢
      refine ⟨g :: pushed, by rw [hgraph, List.append_assoc]; rfl, ?_, fun e => ?_⟩
      · refine List.nodup_cons.mpr ⟨fun h => ?_, hnodup⟩
        exact ((hmem _).mp h).1 (Finset.mem_insert_self _ _)
      · rw [List.map_cons, List.mem_cons, hmem, Finset.mem_insert, not_or]
        by_cases he : e = ends g
        · rw [he]
          exact iff_of_true (Or.inl rfl) ⟨hg.2, g, List.mem_cons_self, hg.1, rfl⟩
        · simp only [he, not_false_eq_true, true_and, false_or, List.mem_cons, exists_eq_or_imp,
            Ne.symm he, and_false]
    · have hpush : Added.push estimates a g = a :=
        if_neg (by simpa [Estimated, ends, and_assoc] using hg)
      rw [hpush] at hgraph hmem ⊢
      refine ⟨pushed, hgraph, hnodup, fun e => ?_⟩
      rw [hmem]
      refine and_congr_right fun hnot => ?_
      simp only [List.mem_cons, exists_eq_or_imp]
      refine (or_iff_right fun hend => hg ⟨hend.1, ?_⟩).symm
      rw [hend.2]
      exact hnot

/-! ### Counting once -/

/-- The factor is between keyframes of two different robots. -/
def JoinsRobots (f : BetweenFactor P) : Prop := f.key1.label ≠ f.key2.label

/-- The factors are between the same two keyframes, in whatever order. -/
def SameKeyframes (f g : BetweenFactor P) : Prop := ends g = ends f ∨ ends g = (ends f).swap

/-- At most one factor for every unordered pair of keyframes of two different robots. -/
def CountedOnce (graph : FactorGraph P) : Prop :=
  graph.Pairwise fun f g => JoinsRobots f → ¬ SameKeyframes f g

instance (f : BetweenFactor P) : Decidable (JoinsRobots f) :=
  inferInstanceAs (Decidable (_ ≠ _))

instance (f g : BetweenFactor P) : Decidable (SameKeyframes f g) :=
  inferInstanceAs (Decidable (_ ∨ _))

instance (graph : FactorGraph P) : Decidable (CountedOnce graph) :=
  inferInstanceAs (Decidable (graph.Pairwise _))

/-- The aggregation has the factor from the robot's own loop closures, or from the graph of a
neighbor. -/
def Known (R : Params) (s : State P) (connected : ℕ → Bool) (f : BetweenFactor P) : Prop :=
  f ∈ localLoopClosures R s connected ∨
    ∃ id ∈ s.currentNeighborsIds.robots, ∃ g, s.otherRobotsGraphAndEstimates.get? id = some g ∧
      f ∈ g.graph ∧ connected (robotIdOf f.key1.label) = true ∧
      connected (robotIdOf f.key2.label) = true

/-- The key is in the odometry or in a connected neighbor's graph. -/
def HasValue (s : State P) (connected : ℕ → Bool) (key : LabeledSymbol) : Prop :=
  s.odometryPoseEstimates.contains key = true ∨ NeighborValues s connected key

/-- Two known factors join the same keyframes of two robots, one each way. -/
def BothWays (R : Params) (s : State P) (connected : ℕ → Bool) : Prop :=
  ∃ f g, Known R s connected f ∧ Known R s connected g ∧ JoinsRobots f ∧
    HasValue s connected f.key1 ∧ HasValue s connected f.key2 ∧ ends g = (ends f).swap

theorem mem_neighborFactors {others : FactorGraph P} (h : neighborFactors s connected = some others)
    (f : BetweenFactor P) : f ∈ others ↔
      ∃ id ∈ s.currentNeighborsIds.robots, ∃ g, s.otherRobotsGraphAndEstimates.get? id = some g ∧
        f ∈ g.graph ∧ connected (robotIdOf f.key1.label) = true ∧
        connected (robotIdOf f.key2.label) = true := by
  obtain ⟨graphs, hgraphs, rfl⟩ := Option.map_eq_some_iff.mp h
  simp only [List.mem_filter, List.mem_flatMap, Bool.and_eq_true]
  constructor
  · rintro ⟨⟨g, hg, hf⟩, hconnected⟩
    obtain ⟨id, hid, hget⟩ := Walk.mem_of_mapM hgraphs hg
    exact ⟨id, hid, g, hget, hf, hconnected⟩
  · rintro ⟨id, hid, g, hget, hf, hconnected⟩
    obtain ⟨g', hg', hget'⟩ := Walk.exists_mem_of_mapM hgraphs hid
    obtain rfl := Option.some.inj (hget.symm.trans hget')
    exact ⟨⟨g, hg', hf⟩, hconnected⟩

/-- The aggregate is the own graph and, once each, the pairs of keys of the known factors. -/
theorem aggregatePoseGraphs_pushed {beyond : ℕ → Bool} {a : GraphAndValues P}
    (h : aggregatePoseGraphs R s beyond = some (s', a)) :
    ∃ pushed, a.graph = s.poseGraph ++ pushed ∧ (pushed.map ends).Nodup ∧
      ∀ e, e ∈ pushed.map ends ↔ ∃ f, Known R s (connectedRobotPoseGraph R s beyond).2 f ∧
        HasValue s (connectedRobotPoseGraph R s beyond).2 f.key1 ∧
        HasValue s (connectedRobotPoseGraph R s beyond).2 f.key2 ∧ ends f = e := by
  obtain ⟨others, hest, hothers, _, ha⟩ := aggregatePoseGraphs_eq_some h
  obtain ⟨pushed, hgraph, hnodup, hmem⟩ := exists_pushed a.estimates
    (localLoopClosures R s (connectedRobotPoseGraph R s beyond).2 ++ others)
    { graph := s.poseGraph }
  refine ⟨pushed, ha.trans hgraph, hnodup, fun e => ?_⟩
  have hvalue := aggregateEstimates_contains hest
  simp only [hmem, Finset.notMem_empty, not_false_eq_true, true_and, List.mem_append,
    mem_neighborFactors hothers, Estimated, hvalue, and_assoc, Known, HasValue]

/-- Keyframes of two robots stay keyframes of two robots in the other order. -/
theorem JoinsRobots.of_sameKeyframes {f g : BetweenFactor P} (h : SameKeyframes f g)
    (hf : JoinsRobots f) : JoinsRobots g := by
  unfold JoinsRobots
  rcases h with h | h
  · obtain ⟨h1, h2⟩ := Prod.mk.inj h
    rw [h1, h2]
    exact hf
  · obtain ⟨h1, h2⟩ := Prod.mk.inj h
    rw [h1, h2]
    exact hf.symm

theorem SameKeyframes.symm {f g : BetweenFactor P} (h : SameKeyframes f g) : SameKeyframes g f := by
  rcases h with h | h
  · exact Or.inl h.symm
  · exact Or.inr (by rw [h, Prod.swap_swap])

/-- Where the own graph joins no robots, a pair counts twice in opposite orders only. -/
theorem countedOnce_append_iff {graph pushed : FactorGraph P}
    (hgraph : ∀ f ∈ graph, ¬ JoinsRobots f) (hnodup : (pushed.map ends).Nodup) :
    CountedOnce (graph ++ pushed) ↔
      ∀ f ∈ pushed, JoinsRobots f → (ends f).swap ∉ pushed.map ends := by
  constructor
  · intro h f hf hjoins hswap
    obtain ⟨g, hg, hends⟩ := List.mem_map.mp hswap
    have hne : f ≠ g := by
      rintro rfl
      exact hjoins (congrArg LabeledSymbol.label (Prod.mk.inj hends).1)
    have : Std.Symm fun f g : BetweenFactor P => JoinsRobots f → ¬ SameKeyframes f g :=
      ⟨fun f g h hg hsame => h (hg.of_sameKeyframes hsame) hsame.symm⟩
    exact (List.pairwise_append.mp h).2.1.forall hf hg hne hjoins (Or.inr hends)
  · intro h
    refine List.pairwise_append.mpr ⟨?_, ?_, fun f hf _ _ hjoins => absurd hjoins (hgraph f hf)⟩
    · exact List.pairwise_iff_forall_sublist.mpr fun hsub hjoins =>
        absurd hjoins (hgraph _ (hsub.subset List.mem_cons_self))
    · refine List.Pairwise.imp_of_mem ?_ (List.pairwise_map.mp hnodup)
      rintro f g hf hg hne hjoins (hsame | hswap)
      · exact hne hsame.symm
      · exact h f hf hjoins (hswap ▸ List.mem_map_of_mem hg)

variable [Mul P] [Inv P] [One P]

/-- The own graph is about the robot alone, whatever has been handled. -/
theorem not_joinsRobots_of_reaches {tr : List (Event P × List (Action P))}
    (h : (pgo P R).Reaches tr s) : ∀ f ∈ s.poseGraph, ¬ JoinsRobots f := by
  have hlocal := localGraph_of_reaches h
  intro f hf hjoins
  rcases hlocal.factors f hf with ⟨h1, h2⟩ | ⟨msg, -, rfl⟩
  · obtain ⟨_, -, h1⟩ := (hlocal.odometry _).mp h1
    obtain ⟨_, -, h2⟩ := (hlocal.odometry _).mp h2
    exact hjoins (by rw [← h1, ← h2]; rfl)
  · exact hjoins rfl

/-- **The aggregate counts every pair of keyframes of two robots once, exactly when no two known
factors with estimates join the same keyframes in opposite orders.** -/
theorem countedOnce_iff {tr : List (Event P × List (Action P))} {beyond : ℕ → Bool}
    {a : GraphAndValues P} (h : (pgo P R).Reaches tr s)
    (ha : aggregatePoseGraphs R s beyond = some (s', a)) :
    CountedOnce a.graph ↔ ¬ BothWays R s (connectedRobotPoseGraph R s beyond).2 := by
  obtain ⟨pushed, hgraph, hnodup, hmem⟩ := aggregatePoseGraphs_pushed ha
  rw [hgraph, countedOnce_append_iff (not_joinsRobots_of_reaches h) hnodup]
  constructor
  · rintro honce ⟨f, g, hf, hg, hjoins, h1, h2, hswap⟩
    obtain ⟨f', hf', hends⟩ := List.mem_map.mp ((hmem (ends f)).mpr ⟨f, hf, h1, h2, rfl⟩)
    have hjoins' : JoinsRobots f' := hjoins.of_sameKeyframes (Or.inl hends)
    obtain ⟨hg1, hg2⟩ := Prod.mk.inj hswap
    refine honce f' hf' hjoins' ((hmem _).mpr ⟨g, hg, ?_, ?_, ?_⟩)
    · rw [hg1]
      exact h2
    · rw [hg2]
      exact h1
    · rw [hswap, hends]
  · intro hnot f' hf' hjoins' hswap
    obtain ⟨f, hf, h1, h2, hends⟩ := (hmem _).mp (List.mem_map_of_mem hf')
    obtain ⟨g, hg, -, -, hgends⟩ := (hmem _).mp hswap
    refine hnot ⟨f, g, hf, hg, hjoins'.of_sameKeyframes (Or.inl hends), h1, h2, ?_⟩
    rw [hgends, hends]

/-! ### Both robots report -/

/-- Robot 0 starts with the graph of robot 1 and the loop closures `closures`, given by who reports
them: each between keyframes 0. -/
def reportedBy (closures : List (ℕ × ℕ)) : List (Event (Multiplicative ℤ)) :=
  [.odometry ⟨0, 1⟩] ++
    closures.map (fun p => .interRobotLoopClosure ⟨true, p.1, 0, p.2, 0, 1⟩) ++
    [.optimization 0, .currentNeighbors ⟨[1], [1]⟩, .optimizationLoop {},
      .poseGraph ⟨1, [⟨⟨1, 0⟩, 1⟩], [], [0]⟩]

theorem countedOnce_iff_one_report :
    ∃ tr s s' a, (pgo (Multiplicative ℤ) robot0).Reaches tr s ∧
      aggregatePoseGraphs robot0 s (fun _ => false) = some (s', a) ∧ a.graph.length = 1 ∧
      ¬ BothWays robot0 s (connectedRobotPoseGraph robot0 s fun _ => false).2 := by
  obtain ⟨tr, s, hr, hany⟩ :=
    Machine.exists_reaches_of_exec (M := pgo (Multiplicative ℤ) robot0) (reportedBy [(0, 1)])
      (p := fun r => (aggregatePoseGraphs robot0 r.2 (fun _ => false)).any
        (fun q => q.2.graph.length = 1 ∧ CountedOnce q.2.graph) = true)
      (by decide +kernel)
  obtain ⟨⟨s', a⟩, ha, hq⟩ := (Option.any_eq_true _ _).mp hany
  obtain ⟨hlen, honce⟩ := of_decide_eq_true hq
  exact ⟨tr, s, s', a, hr, ha, hlen, (countedOnce_iff hr ha).mp honce⟩

/-- Both robots report the match of their first keyframes. -/
theorem not_countedOnce :
    ¬ ∀ tr s beyond s' a, (pgo (Multiplicative ℤ) robot0).Reaches tr s →
      s.optimizerState = .startOptimization →
      aggregatePoseGraphs robot0 s beyond = some (s', a) → CountedOnce a.graph := by
  intro h
  obtain ⟨tr, s, hr, hst, hany⟩ :=
    Machine.exists_reaches_of_exec (M := pgo (Multiplicative ℤ) robot0)
      (reportedBy [(0, 1), (1, 0)])
      (p := fun r => r.2.optimizerState = .startOptimization ∧
        (aggregatePoseGraphs robot0 r.2 (fun _ => false)).any
          (fun q => ¬ CountedOnce q.2.graph) = true)
      (by decide +kernel)
  obtain ⟨⟨s', a⟩, ha, hnot⟩ := (Option.any_eq_true _ _).mp hany
  exact of_decide_eq_true hnot (h tr s _ s' a hr hst ha)

end RoverSwarm.Pgo
