import RoverSwarm.Pgo.StateMachine

/-!
# Pgo.Aggregate — the aggregated pose graph over runs of the node

The aggregate takes factors from the robot's own graph, from its inter-robot loop closures and
from the neighbors' graphs.  It looks up both keys of the factors of the last two kinds among the
estimates, and pushes the own graph as it is.  The own graph holds odometry factors, between
keyframes whose odometry was handled, and intra-robot loop closures, which come on a topic of
their own; so the aggregate is well formed exactly when every keyframe of those has an estimate.
-/

namespace RoverSwarm.Pgo

open Transition

variable {P : Type*} {R : Params} {s s' : State P}

/-- Both keys of every factor have an estimate. -/
def WellFormed (a : GraphAndValues P) : Prop :=
  ∀ f ∈ a.graph, a.estimates.contains f.key1 = true ∧ a.estimates.contains f.key2 = true

instance (a : GraphAndValues P) : Decidable (WellFormed a) :=
  inferInstanceAs (Decidable (∀ f ∈ a.graph, _ ∧ _))

/-! ### What one aggregation does -/

theorem foldl_push_graph {estimates : Values P} {l : FactorGraph P} {a : Added P}
    {f : BetweenFactor P} (h : f ∈ (l.foldl (Added.push estimates) a).graph) :
    f ∈ a.graph ∨ (estimates.contains f.key1 = true ∧ estimates.contains f.key2 = true) := by
  induction l generalizing a with
  | nil => exact Or.inl h
  | cons g l ih =>
    rcases ih h with h | h
    · unfold Added.push at h
      split_ifs at h with hg
      · rcases List.mem_append.mp h with h | h
        · exact Or.inl h
        · obtain rfl := List.mem_singleton.mp h
          simp only [Bool.and_eq_true] at hg
          exact Or.inr hg.1
      · exact Or.inl h
    · exact Or.inr h

theorem subset_foldl_push (estimates : Values P) (l : FactorGraph P) (a : Added P) :
    a.graph ⊆ (l.foldl (Added.push estimates) a).graph := by
  induction l generalizing a with
  | nil => exact List.Subset.refl _
  | cons g l ih =>
    refine List.Subset.trans ?_ (ih _)
    unfold Added.push
    split_ifs
    · exact List.subset_append_left _ _
    · exact List.Subset.refl _

/-- A connected neighbor's graph, as received, values the key. -/
def NeighborValues (s : State P) (connected : ℕ → Bool) (key : LabeledSymbol) : Prop :=
  ∃ id ∈ s.currentNeighborsIds.robots, connected id = true ∧
    ∃ g, s.otherRobotsGraphAndEstimates.get? id = some g ∧ g.estimates.contains key = true

/-- The estimates of the aggregate are the odometry and what connected neighbors value. -/
theorem aggregateEstimates_contains {connected : ℕ → Bool} {estimates : Values P}
    (h : aggregateEstimates s connected = some estimates) (key : LabeledSymbol) :
    estimates.contains key = true ↔
      s.odometryPoseEstimates.contains key = true ∨ NeighborValues s connected key := by
  unfold aggregateEstimates at h
  unfold NeighborValues
  generalize s.odometryPoseEstimates = start at h ⊢
  generalize s.currentNeighborsIds.robots = ids at h ⊢
  induction ids generalizing start with
  | nil =>
    obtain rfl : start = estimates := by simpa using h
    simp
  | cons id ids ih =>
    simp only [List.foldlM_cons, Option.bind_eq_bind, Option.bind_eq_some_iff] at h
    obtain ⟨next, hnext, hrest⟩ := h
    rw [ih next hrest]
    simp only [List.mem_cons, exists_eq_or_imp]
    split_ifs at hnext with hid
    · obtain ⟨g, hg, hins⟩ := Option.bind_eq_some_iff.mp hnext
      rw [SortedDict.contains_of_insertAll hins, ← SortedDict.contains_iff_entries]
      simp only [hid, true_and, hg, Option.some.injEq, exists_eq_left', or_assoc]
    · obtain rfl := Option.some.inj hnext
      simp [hid]

/-- **Well-formedness lemma**: only the robot's own graph can spoil the aggregate. -/
theorem aggregatePoseGraphs_wellFormed {beyond : ℕ → Bool} {a : GraphAndValues P}
    (h : aggregatePoseGraphs R s beyond = some (s', a)) :
    (WellFormed a ↔
      ∀ f ∈ s.poseGraph, a.estimates.contains f.key1 = true ∧ a.estimates.contains f.key2 = true) ∧
    ∀ key, a.estimates.contains key = true ↔ s.odometryPoseEstimates.contains key = true ∨
      NeighborValues s (connectedRobotPoseGraph R s beyond).2 key := by
  obtain ⟨others, hest, _, _, hgraph⟩ := aggregatePoseGraphs_eq_some h
  refine ⟨⟨fun hw f hf => hw f ?_, fun hg f hf => ?_⟩, aggregateEstimates_contains hest⟩
  · rw [hgraph]
    exact subset_foldl_push _ _ _ hf
  · rw [hgraph] at hf
    rcases foldl_push_graph hf with hf | hf
    · exact hg f hf
    · exact hf

/-! ### The robot's own graph over a run -/

/-- The keyframes whose odometry the run has handled. -/
def handledKeyframes (tr : List (Event P × List (Action P))) : List ℕ :=
  tr.filterMap fun x => match x.1 with
    | .odometry msg => some msg.id
    | _ => none

/-- The successful intra-robot loop closures the run has handled. -/
def handledClosures (tr : List (Event P × List (Action P))) : List (IntraRobotLoopClosure P) :=
  tr.filterMap fun x => match x.1 with
    | .intraRobotLoopClosure msg => if msg.success then some msg else none
    | _ => none

/-- The robot's own graph is what the run has handled. -/
structure LocalGraph (R : Params) (tr : List (Event P × List (Action P))) (s : State P) :
    Prop where
  odometry : ∀ key, s.odometryPoseEstimates.contains key = true ↔
    ∃ kf ∈ handledKeyframes tr, symbol R.robotId kf = key
  latest : s.latestLocalSymbol ≠ {} →
    s.odometryPoseEstimates.contains s.latestLocalSymbol = true
  factors : ∀ f ∈ s.poseGraph,
    (s.odometryPoseEstimates.contains f.key1 = true ∧
      s.odometryPoseEstimates.contains f.key2 = true) ∨
    ∃ msg ∈ handledClosures tr, f = intraFactor R msg
  closures : ∀ msg ∈ handledClosures tr, intraFactor R msg ∈ s.poseGraph

theorem handledKeyframes_concat (tr : List (Event P × List (Action P)))
    (x : Event P × List (Action P)) :
    handledKeyframes (tr ++ [x]) = handledKeyframes tr ++ handledKeyframes [x] :=
  List.filterMap_append

theorem handledClosures_concat (tr : List (Event P × List (Action P)))
    (x : Event P × List (Action P)) :
    handledClosures (tr ++ [x]) = handledClosures tr ++ handledClosures [x] :=
  List.filterMap_append

/-- What the own graph is made of stays the same. -/
structure SameLocal (s s' : State P) : Prop where
  poseGraph : s'.poseGraph = s.poseGraph
  odometry : s'.odometryPoseEstimates = s.odometryPoseEstimates
  latest : s'.latestLocalSymbol = s.latestLocalSymbol

theorem LocalGraph.of_sameLocal {tr : List (Event P × List (Action P))}
    {x : Event P × List (Action P)} (h : LocalGraph R tr s) (hs : SameLocal s s')
    (hk : handledKeyframes [x] = []) (hc : handledClosures [x] = []) :
    LocalGraph R (tr ++ [x]) s' := by
  obtain ⟨hgraph, hodo, hlatest⟩ := hs
  refine ⟨?_, ?_, ?_, ?_⟩
  · rw [hodo, handledKeyframes_concat, hk, List.append_nil]
    exact h.odometry
  · rw [hodo, hlatest]
    exact h.latest
  · rw [hgraph, hodo, handledClosures_concat, hc, List.append_nil]
    exact h.factors
  · rw [hgraph, handledClosures_concat, hc, List.append_nil]
    exact h.closures

/-- Odometry adds its keyframe, and a factor between known keyframes. -/
theorem LocalGraph.odometry_step [Mul P] [Inv P] {tr : List (Event P × List (Action P))}
    {msg : KeyframeOdom P} {o : List (Action P)} (h : LocalGraph R tr s)
    (hs : odometryCallback R s msg = some s') :
    LocalGraph R (tr ++ [(.odometry msg, o)]) s' := by
  simp only [odometryCallback, Option.bind_eq_bind, Option.bind_eq_some_iff,
    Option.some.injEq] at hs
  obtain ⟨odometry, hodo, _, -, rfl⟩ := hs
  obtain ⟨-, rfl⟩ := SortedDict.insertNew_eq_some.mp hodo
  have hmono : ∀ key, s.odometryPoseEstimates.contains key = true →
      (s.odometryPoseEstimates.set (symbol R.robotId msg.id) msg.odom).contains key = true := by
    intro key hkey
    simp [hkey]
  refine ⟨fun key => ?_, fun _ => by simp, fun f hf => ?_, fun m hm => ?_⟩
  · have hkf : handledKeyframes [((.odometry msg : Event P), o)] = [msg.id] := rfl
    rw [SortedDict.contains_set, Bool.or_eq_true, decide_eq_true_iff, h.odometry key,
      handledKeyframes_concat, hkf, eq_comm, or_comm]
    simp only [List.mem_append, List.mem_singleton, or_and_right, exists_or, exists_eq_left]
  · have hcl : handledClosures [((.odometry msg : Event P), o)] = [] := rfl
    rw [handledClosures_concat, hcl, List.append_nil]
    dsimp only at hf ⊢
    split_ifs at hf with hlatest
    · rcases List.mem_append.mp hf with hf | hf
      · exact (h.factors f hf).imp_left fun hk => ⟨hmono _ hk.1, hmono _ hk.2⟩
      · obtain rfl := List.mem_singleton.mp hf
        exact Or.inl ⟨hmono _ (h.latest hlatest), by simp⟩
    · exact (h.factors f hf).imp_left fun hk => ⟨hmono _ hk.1, hmono _ hk.2⟩
  · have hcl : handledClosures [((.odometry msg : Event P), o)] = [] := rfl
    rw [handledClosures_concat, hcl, List.append_nil] at hm
    dsimp only
    split_ifs
    · exact List.mem_append_left _ (h.closures m hm)
    · exact h.closures m hm

/-- A successful loop closure adds its factor. -/
theorem LocalGraph.intra_step {tr : List (Event P × List (Action P))}
    {msg : IntraRobotLoopClosure P} {o : List (Action P)} (h : LocalGraph R tr s) :
    LocalGraph R (tr ++ [(.intraRobotLoopClosure msg, o)])
      (intraRobotLoopClosureCallback R s msg) := by
  unfold intraRobotLoopClosureCallback
  split_ifs with hsucc
  · have hcl : handledClosures [((.intraRobotLoopClosure msg : Event P), o)] = [msg] := by
      simp [handledClosures, hsucc]
    refine ⟨?_, h.latest, fun f hf => ?_, fun m hm => ?_⟩
    · rw [handledKeyframes_concat]
      simpa [handledKeyframes] using h.odometry
    · rw [handledClosures_concat, hcl]
      rcases List.mem_append.mp hf with hf | hf
      · refine (h.factors f hf).imp_right fun ⟨m, hm, heq⟩ => ⟨m, ?_, heq⟩
        exact List.mem_append_left _ hm
      · exact Or.inr ⟨msg, List.mem_append_right _ List.mem_cons_self, List.mem_singleton.mp hf⟩
    · rw [handledClosures_concat, hcl] at hm
      rcases List.mem_append.mp hm with hm | hm
      · exact List.mem_append_left _ (h.closures m hm)
      · rw [List.mem_singleton.mp hm]
        exact List.mem_append_right _ List.mem_cons_self
  · refine h.of_sameLocal ⟨rfl, rfl, rfl⟩ rfl ?_
    simp [handledClosures, hsucc]

variable [Mul P] [Inv P] [One P]

/-- Only odometry and intra-robot loop closures write the own graph. -/
theorem step_sameLocal {e : Event P} {o : List (Action P)} (hodo : ∀ msg, e ≠ .odometry msg)
    (hintra : ∀ msg, e ≠ .intraRobotLoopClosure msg) (h : s.step R e = some (s', o)) :
    SameLocal s s' := by
  cases e with
  | odometry msg => exact absurd rfl (hodo msg)
  | intraRobotLoopClosure msg => exact absurd rfl (hintra msg)
  | interRobotLoopClosure msg =>
    obtain ⟨rfl, -⟩ := Prod.mk.inj (Option.some.inj h)
    obtain ⟨_, _, heq⟩ := interRobotLoopClosureCallback_frame R s msg
    rw [heq]
    exact ⟨rfl, rfl, rfl⟩
  | currentNeighbors msg =>
    obtain ⟨s₁, h₁, heq⟩ := Option.map_eq_some_iff.mp h
    obtain ⟨rfl, -⟩ := Prod.mk.inj heq
    obtain ⟨b, -, rfl⟩ := Option.map_eq_some_iff.mp h₁
    exact ⟨rfl, rfl, rfl⟩
  | poseGraph msg =>
    obtain ⟨s₁, h₁, heq⟩ := Option.map_eq_some_iff.mp h
    obtain ⟨rfl, -⟩ := Prod.mk.inj heq
    obtain ⟨_, _, _, _, _, rfl⟩ := poseGraphCallback_frame h₁
    exact ⟨rfl, rfl, rfl⟩
  | optimizedEstimates msg b =>
    rcases optimizedEstimatesCallback_cases h with ⟨-, rfl, -⟩ | ⟨-, -, -, _, _, -, -, heq⟩
    · exact ⟨rfl, rfl, rfl⟩
    · rw [heq]
      exact ⟨rfl, rfl, rfl⟩
  | optimization now =>
    obtain ⟨_, _, _, _, _, _, heq⟩ := optimizationCallback_frame R s now
    obtain rfl : (optimizationCallback R s now).1 = s' := congrArg Prod.fst (Option.some.inj h)
    rw [heq]
    exact ⟨rfl, rfl, rfl⟩
  | optimizationLoop env =>
    obtain ⟨_, _, _, _, _, _, _, _, rfl⟩ := optimizationLoopCallback_frame h
    exact ⟨rfl, rfl, rfl⟩
  | getPoseGraph _ | heartbeat _ | broadcastTf =>
    obtain ⟨rfl, -⟩ := Prod.mk.inj (Option.some.inj h)
    exact ⟨rfl, rfl, rfl⟩

theorem LocalGraph.step {tr : List (Event P × List (Action P))} {e : Event P}
    {o : List (Action P)} (h : LocalGraph R tr s) (hs : s.step R e = some (s', o)) :
    LocalGraph R (tr ++ [(e, o)]) s' := by
  cases e with
  | odometry msg =>
    obtain ⟨s₁, h₁, heq⟩ := Option.map_eq_some_iff.mp hs
    obtain ⟨rfl, -⟩ := Prod.mk.inj heq
    exact h.odometry_step h₁
  | intraRobotLoopClosure msg =>
    obtain ⟨rfl, -⟩ := Prod.mk.inj (Option.some.inj hs)
    exact h.intra_step
  | _ => exact h.of_sameLocal (step_sameLocal (by simp) (by simp) hs) rfl rfl

theorem localGraph_of_reaches {tr : List (Event P × List (Action P))}
    (h : (pgo P R).Reaches tr s) : LocalGraph R tr s := by
  refine h.invariant (I := LocalGraph R) ⟨?_, ?_, ?_, ?_⟩ fun _ _ _ _ _ _ ih _ hs => ih.step hs
  · simp [pgo, initialState, handledKeyframes]
  · simp [pgo, initialState]
  · simp [pgo, initialState]
  · simp [handledClosures]

/-! ### Well-formed aggregates -/

/-- The keyframe of the robot has an estimate in the aggregate: its odometry was handled, or a
connected neighbor's graph values it. -/
def HasEstimate (R : Params) (tr : List (Event P × List (Action P))) (s : State P)
    (beyond : ℕ → Bool) (kf : ℕ) : Prop :=
  kf ∈ handledKeyframes tr ∨
    NeighborValues s (connectedRobotPoseGraph R s beyond).2 (symbol R.robotId kf)

/-- **The aggregated pose graph is well formed exactly when both keyframes of every successful
intra-robot loop closure handled so far have an estimate.** -/
theorem aggregate_wellFormed_iff {tr : List (Event P × List (Action P))} {beyond : ℕ → Bool}
    {a : GraphAndValues P} (h : (pgo P R).Reaches tr s)
    (ha : aggregatePoseGraphs R s beyond = some (s', a)) :
    WellFormed a ↔ ∀ msg ∈ handledClosures tr,
      HasEstimate R tr s beyond msg.keyframe0Id ∧ HasEstimate R tr s beyond msg.keyframe1Id := by
  have hlocal := localGraph_of_reaches h
  obtain ⟨hwell, hcontains⟩ := aggregatePoseGraphs_wellFormed ha
  have hkf : ∀ kf, a.estimates.contains (symbol R.robotId kf) = true ↔
      HasEstimate R tr s beyond kf := by
    intro kf
    rw [hcontains, hlocal.odometry]
    simp [HasEstimate, symbol]
  rw [hwell]
  constructor
  · intro hf msg hmsg
    have hfactor := hf _ (hlocal.closures msg hmsg)
    exact ⟨(hkf _).mp hfactor.1, (hkf _).mp hfactor.2⟩
  · intro hmsg f hf
    rcases hlocal.factors f hf with hodo | ⟨msg, hm, rfl⟩
    · exact ⟨(hcontains _).mpr (Or.inl hodo.1), (hcontains _).mpr (Or.inl hodo.2)⟩
    · exact ⟨(hkf _).mpr (hmsg msg hm).1, (hkf _).mpr (hmsg msg hm).2⟩

/-- Two keyframes, or one, with a loop closure between keyframes 0 and 1, ready to aggregate. -/
def closureThenAggregate (keyframes : List ℕ) : List (Event (Multiplicative ℤ)) :=
  keyframes.map (fun kf => .odometry ⟨kf, 1⟩) ++
    [.intraRobotLoopClosure ⟨true, 0, 1, 1⟩, .optimization 0, .currentNeighbors {},
      .optimizationLoop {}]

theorem aggregate_wellFormed_iff_two :
    ∃ tr s s' a, (pgo (Multiplicative ℤ) robot0).Reaches tr s ∧
      s.optimizerState = .startOptimization ∧ handledClosures tr ≠ [] ∧
      aggregatePoseGraphs robot0 s (fun _ => false) = some (s', a) ∧ WellFormed a := by
  obtain ⟨tr, s, hr, hst, hne, hall, hsome⟩ :=
    Machine.exists_reaches_of_exec (M := pgo (Multiplicative ℤ) robot0)
      (closureThenAggregate [0, 1])
      (p := fun r => r.2.optimizerState = .startOptimization ∧ handledClosures r.1 ≠ [] ∧
        (∀ msg ∈ handledClosures r.1, msg.keyframe0Id ∈ handledKeyframes r.1 ∧
          msg.keyframe1Id ∈ handledKeyframes r.1) ∧
        (aggregatePoseGraphs robot0 r.2 (fun _ => false)).isSome = true)
      (by decide +kernel)
  obtain ⟨⟨s', a⟩, ha⟩ := Option.isSome_iff_exists.mp hsome
  refine ⟨tr, s, s', a, hr, hst, hne, ha, (aggregate_wellFormed_iff hr ha).mpr fun msg hmsg => ?_⟩
  exact (hall msg hmsg).imp Or.inl Or.inl

/-- The loop closure is handled before the odometry of keyframe 1. -/
theorem not_aggregate_wellFormed :
    ¬ ∀ tr s beyond s' a, (pgo (Multiplicative ℤ) robot0).Reaches tr s →
      s.optimizerState = .startOptimization →
      aggregatePoseGraphs robot0 s beyond = some (s', a) → WellFormed a := by
  intro h
  obtain ⟨tr, s, hr, hst, hbad⟩ :=
    Machine.exists_reaches_of_exec (M := pgo (Multiplicative ℤ) robot0) (closureThenAggregate [0])
      (p := fun r => r.2.optimizerState = .startOptimization ∧
        (aggregatePoseGraphs robot0 r.2 (fun _ => false)).any (fun q => ¬ WellFormed q.2) = true)
      (by decide +kernel)
  obtain ⟨⟨s', a⟩, ha, hnot⟩ := (Option.any_eq_true _ _).mp hbad
  exact of_decide_eq_true hnot (h tr s _ s' a hr hst ha)

end RoverSwarm.Pgo
