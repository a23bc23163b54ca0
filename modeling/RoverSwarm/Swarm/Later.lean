import RoverSwarm.Swarm.Invariant

/-!
# Swarm.Later — what no step undoes

The messages that were published are still there later on, in their places, and so are the matches
a robot has considered.
-/

namespace RoverSwarm.Swarm

open Exchange LidarHandler Pgo Selection Transition AlgebraicConnectivityMaximization
open GlobalDescriptorLoopClosureDetection LoopClosureSparseMatching

variable {K Cloud P D T Gps : Type*} [Arithmetic K] {S : Setup K Cloud P D T}
  {ms : List (Message P D T)} {r : ℕ}

/-! ### The matches considered by one robot -/

section Detector

variable {M : Matcher D} {g g' : GlobalDescriptorLoopClosureDetection M} {p : DetectionParams}

def considered (g : GlobalDescriptorLoopClosureDetection M) : Finset EdgeKey :=
  g.lcm.candidateSelector.alreadyConsideredMatches

theorem foldl_addMatch_considered (edges : List EdgeInterRobot)
    (s : AlgebraicConnectivityMaximization) :
    (edges.foldl AlgebraicConnectivityMaximization.addMatch s).alreadyConsideredMatches =
      s.alreadyConsideredMatches := by
  induction edges generalizing s with
  | nil => rfl
  | cons m edges ih => rw [List.foldl_cons, ih, addMatch_considered]

theorem storeMatches_lcm (edges : List EdgeInterRobot) : (g.storeMatches edges).lcm = g.lcm := by
  unfold storeMatches
  induction edges generalizing g with
  | nil => rfl
  | cons m edges ih => exact ih

theorem addGlobalDescriptorToMap_considered {embedding : D} {kf : ℕ} {localMatch : Option (ℕ × ℕ)}
    (h : g.addGlobalDescriptorToMap p embedding kf = some (g', localMatch)) :
    considered g' = considered g := by
  obtain ⟨x, hx, heq⟩ := Option.map_eq_some_iff.mp h
  rw [addLocalGlobalDescriptor_eq_some hx] at heq
  obtain ⟨rfl, -⟩ := Prod.mk.inj heq
  unfold considered
  rw [storeMatches_lcm]
  exact foldl_addMatch_considered _ _

theorem receiveDescriptor_considered {d : GlobalDescriptor D}
    (h : receiveDescriptor p g d = some g') : considered g' = considered g := by
  obtain ⟨x, hx, heq⟩ := Option.map_eq_some_iff.mp h
  rw [addOtherRobotGlobalDescriptor_eq_some hx] at heq
  obtain rfl := heq
  unfold considered
  rw [storeMatches_lcm]
  exact foldl_addMatch_considered _ _

theorem globalDescriptorCallback_considered {descriptors : List (GlobalDescriptor D)}
    (h : g.globalDescriptorCallback p descriptors = some g') : considered g' = considered g := by
  have hfold : ∀ (l : List (GlobalDescriptor D)) (g : GlobalDescriptorLoopClosureDetection M),
      l.foldlM (receiveDescriptor p) g = some g' → considered g' = considered g := by
    intro l
    induction l with
    | nil => exact fun g h => congrArg considered (Option.some.inj h).symm
    | cons d l ih =>
      intro g h
      rw [List.foldlM_cons, Option.bind_eq_bind] at h
      obtain ⟨g₁, hd, hl⟩ := Option.bind_eq_some_iff.mp h
      exact (ih g₁ hl).trans (receiveDescriptor_considered hd)
  unfold GlobalDescriptorLoopClosureDetection.globalDescriptorCallback at h
  split at h
  · exact absurd h (by simp)
  · split_ifs at h
    · dsimp only at h
      have hall := hfold _ _ h
      exact hall
    · exact congrArg considered (Option.some.inj h).symm

theorem interRobotMatchesCallback_considered {msg : InterRobotMatches}
    (h : g.interRobotMatchesCallback p msg = some g') : considered g' = considered g := by
  unfold GlobalDescriptorLoopClosureDetection.interRobotMatchesCallback at h
  split_ifs at h
  · obtain ⟨s, hs, rfl⟩ := Option.map_eq_some_iff.mp h
    have hfold := Walk.foldl_of_foldlM (fun _ _ _ => addMatch_of_tryAddMatch) hs
    unfold considered withSelector
    dsimp only
    rw [← hfold]
    exact foldl_addMatch_considered _ _
  · exact congrArg considered (Option.some.inj h).symm

/-- A loop closure is considered, whatever it says. -/
theorem receiveInterRobotLoopClosure_considered (msg : InterRobotLoopClosure T) {key : EdgeKey} :
    key ∈ considered (g.receiveInterRobotLoopClosure msg) ↔ key ∈ considered g ∨
      edgeKey (g.lcm.candidateSelector.interRobotLoopClosureMsgToEdge msg) = key := by
  refine ((receiveInterRobotLoopClosure_considers g.lcm.candidateSelector msg).considered key).trans ?_
  simp [considered]

end Detector

/-- What is selected is considered. -/
theorem detectInter_considered {g g' : GlobalDescriptorLoopClosureDetection S.matcher}
    (h : DetectorOk S ms r g) {env : DetectEnv} {selection : List EdgeInterRobot}
    {requests : List (ℕ × LocalDescriptorsRequest)}
    (hd : g.detectInter (S.detectionOf r) S.nx S.order env = some (g', selection, requests)) :
    ∀ key, key ∈ considered g' ↔ key ∈ considered g ∨ ∃ e ∈ selection, edgeKey e = key := by
  unfold GlobalDescriptorLoopClosureDetection.detectInter at hd
  dsimp only at hd
  split_ifs at hd
  · obtain ⟨⟨s, selection'⟩, hs, hd⟩ := Option.bind_eq_some_iff.mp hd
    obtain ⟨sets, -, hd⟩ := Option.bind_eq_some_iff.mp hd
    obtain ⟨requests', -, hresult⟩ := Option.map_eq_some_iff.mp hd
    obtain ⟨rfl, hrest⟩ := Prod.mk.inj hresult
    obtain ⟨rfl, rfl⟩ := Prod.mk.inj hrest
    exact (selectCandidates_considers h.selector.valid hs).1.considered
  · obtain ⟨rfl, hrest⟩ := Prod.mk.inj (Option.some.inj hd)
    obtain ⟨rfl, rfl⟩ := Prod.mk.inj hrest
    exact fun key => by simp

/-- The edges that are selected are considered from then on. -/
theorem considered_of_selected {g g' : GlobalDescriptorLoopClosureDetection S.matcher}
    (h : DetectorOk S ms r g) {env : DetectEnv} {selection : List EdgeInterRobot}
    {requests : List (ℕ × LocalDescriptorsRequest)}
    (hd : g.detectInter (S.detectionOf r) S.nx S.order env = some (g', selection, requests))
    {e : EdgeInterRobot} (he : e ∈ selection) : edgeKey e ∈ considered g' :=
  (detectInter_considered h hd _).mpr (Or.inr ⟨e, he, rfl⟩)

/-! ### Robots -/

theorem receive_considered {robot robot' : Robot S Gps} {m : Message P D T}
    {msgs : List (Message P D T)} (h : robot.receive S r m = some (robot', msgs)) :
    considered robot.detector ⊆ considered robot'.detector := by
  cases m with
  | keyframeData dest id pointcloud =>
    obtain ⟨-, hmap⟩ := Option.ite_none_right_eq_some.mp h
    obtain ⟨⟨g, localMatch⟩, hg, heq⟩ := Option.map_eq_some_iff.mp hmap
    obtain ⟨rfl, -⟩ := Prod.mk.inj heq
    exact (addGlobalDescriptorToMap_considered hg).ge
  | globalDescriptors descriptors =>
    obtain ⟨g, hg, heq⟩ := Option.map_eq_some_iff.mp h
    obtain ⟨rfl, -⟩ := Prod.mk.inj heq
    exact (globalDescriptorCallback_considered hg).ge
  | interRobotMatches msg =>
    obtain ⟨g, hg, heq⟩ := Option.map_eq_some_iff.mp h
    obtain ⟨rfl, -⟩ := Prod.mk.inj heq
    exact (interRobotMatchesCallback_considered hg).ge
  | localKeyframeMatch dest kf kf' =>
    obtain ⟨-, hmap⟩ := Option.ite_none_right_eq_some.mp h
    obtain ⟨msg, -, heq⟩ := Option.map_eq_some_iff.mp hmap
    obtain ⟨rfl, -⟩ := Prod.mk.inj heq
    exact Finset.Subset.refl _
  | localDescriptorsRequest dest request =>
    obtain ⟨-, hmap⟩ := Option.ite_none_right_eq_some.mp h
    obtain ⟨msg, -, heq⟩ := Option.map_eq_some_iff.mp hmap
    obtain ⟨rfl, -⟩ := Prod.mk.inj heq
    exact Finset.Subset.refl _
  | localDescriptors msg =>
    obtain ⟨-, heq⟩ := Option.ite_none_right_eq_some.mp h
    obtain ⟨rfl, -⟩ := Prod.mk.inj (Option.some.inj heq)
    exact Finset.Subset.refl _
  | interRobotLoopClosure msg =>
    obtain ⟨rfl, -⟩ := Prod.mk.inj (Option.some.inj h)
    exact fun key hkey => (receiveInterRobotLoopClosure_considered msg).mpr (Or.inl hkey)
  | intraRobotLoopClosure dest msg => exact absurd h (by simp [Robot.receive])

theorem act_considered {robot robot' : Robot S Gps} (h : RobotOk S ms r robot)
    {e : Event K Cloud Gps} (he : e.robot = r) {msgs : List (Message P D T)}
    (hact : robot.act S ms e = some (robot', msgs)) :
    considered robot.detector ⊆ considered robot'.detector := by
  cases e with
  | detectInter q env =>
    obtain rfl : q = r := he
    obtain ⟨⟨g, selection, requests⟩, hd, heq⟩ := Option.map_eq_some_iff.mp hact
    obtain ⟨rfl, -⟩ := Prod.mk.inj heq
    exact fun key hkey => (detectInter_considered h.detector hd key).mpr (Or.inl hkey)
  | deliver q i =>
    obtain ⟨m, -, hrec⟩ := Option.bind_eq_some_iff.mp hact
    exact receive_considered hrec
  | sensor q e =>
    obtain ⟨x, -, heq⟩ := Option.map_eq_some_iff.mp hact
    obtain ⟨rfl, -⟩ := Prod.mk.inj heq
    exact Finset.Subset.refl _
  | heartbeat q rid data now later =>
    obtain ⟨-, hact⟩ := Option.ite_none_right_eq_some.mp hact
    obtain ⟨rfl, -⟩ := Prod.mk.inj (Option.some.inj hact)
    exact Finset.Subset.refl _
  | descriptorsTimer q now now' =>
    obtain ⟨rfl, -⟩ := Prod.mk.inj (Option.some.inj hact)
    exact Finset.Subset.refl _
  | matchesTimer q now now' now'' =>
    obtain ⟨rfl, -⟩ := Prod.mk.inj (Option.some.inj hact)
    exact Finset.Subset.refl _

/-! ### Runs -/

/-- A later state: no message has been lost, and no match been forgotten. -/
structure Later (s s' : State S Gps) : Prop where
  published : s.published <+: s'.published
  considered : ∀ q, considered (s.robots q).detector ⊆ considered (s'.robots q).detector

section Runs

variable [Inhabited Gps] {tr : List (Event K Cloud Gps × List (Message P D T))} {s : State S Gps}

/-- **Step lemma.** -/
theorem later_step {s s' : State S Gps} (hok : Ok s) {e : Event K Cloud Gps}
    {o : List (Message P D T)} (h : (swarm S Gps).step s e = some (s', o)) : Later s s' := by
  obtain ⟨hr, robot, hact, rfl⟩ := swarm_step h
  refine ⟨List.prefix_append _ _, fun q => ?_⟩
  by_cases hq : q = e.robot
  · subst hq
    show _ ⊆ Swarm.considered (Function.update s.robots e.robot robot e.robot).detector
    rw [Function.update_self]
    exact act_considered (hok.robots _ hr) rfl hact
  · show _ ⊆ Swarm.considered (Function.update s.robots e.robot robot q).detector
    rw [Function.update_of_ne hq]

/-- **Run lemma**: what a step has published or considered is there at the end. -/
theorem exists_step (h : (swarm S Gps).Reaches tr s)
    {pre : List (Event K Cloud Gps × List (Message P D T))}
    {x : Event K Cloud Gps × List (Message P D T)} (hp : pre ++ [x] <+: tr) :
    ∃ s₀ s₁, (swarm S Gps).Reaches pre s₀ ∧ (swarm S Gps).step s₀ x.1 = some (s₁, x.2) ∧
      Later s₁ s := by
  refine h.exists_step (fun s => ⟨List.prefix_refl _, fun _ => Finset.Subset.refl _⟩) ?_ hp
  intro tr s₀ s e s' o hrun hs hlater
  have hlast := later_step (ok_of_reaches hrun) hs
  exact ⟨hlater.published.trans hlast.published,
    fun q => (hlater.considered q).trans (hlast.considered q)⟩

/-- The `i`-th message has been delivered to robot `r`. -/
def Delivered (tr : List (Event K Cloud Gps × List (Message P D T))) (r i : ℕ) : Prop :=
  ∃ o, (.deliver r i, o) ∈ tr

/-- What a delivery does was done by the callback, on the message that is there now. -/
theorem exists_receive_of_delivered (h : (swarm S Gps).Reaches tr s) {i : ℕ}
    (hd : Delivered tr r i) {m : Message P D T} (hm : s.published[i]? = some m) :
    ∃ s₀ : State S Gps, Ok s₀ ∧ r < S.nbRobots ∧ m ∈ s₀.published ∧
      ∃ robot o, (s₀.robots r).receive S r m = some (robot, o) ∧ o ⊆ s.published ∧
        considered robot.detector ⊆ considered (s.robots r).detector := by
  obtain ⟨o, hx⟩ := hd
  obtain ⟨pre, post, rfl⟩ := List.append_of_mem hx
  have hp : pre ++ [(.deliver r i, o)] <+: pre ++ (.deliver r i, o) :: post := ⟨post, by simp⟩
  obtain ⟨s₀, s₁, hreach, hs, hlater⟩ := exists_step h hp
  obtain ⟨hr, robot, hact, rfl⟩ := swarm_step hs
  obtain ⟨m₀, hget, hrec⟩ := Option.bind_eq_some_iff.mp hact
  have hsub : s₀.published <+: s.published := (List.prefix_append _ _).trans hlater.published
  obtain rfl : m₀ = m := by
    obtain ⟨hlt, hvalue⟩ := List.getElem?_eq_some_iff.mp hget
    rw [List.prefix_iff_getElem?.mp hsub i hlt] at hm
    exact hvalue.symm.trans (Option.some.inj hm)
  refine ⟨s₀, ok_of_reaches hreach, hr, List.mem_of_getElem? hget, robot, o, hrec,
    fun m hm => hlater.published.subset (List.mem_append_right _ hm), ?_⟩
  have hconsidered : considered (Function.update s₀.robots r robot r).detector ⊆ _ :=
    hlater.considered r
  rwa [Function.update_self] at hconsidered

end Runs

end RoverSwarm.Swarm
