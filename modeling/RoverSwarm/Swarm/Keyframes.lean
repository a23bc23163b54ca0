import RoverSwarm.Exchange.Sent
import RoverSwarm.Swarm.Similar

/-!
# Swarm.Keyframes — what holds of every robot and of every message

The matching structures, the buffers and the selector of a robot hold keyframes that were published,
and pairs of them that are similar enough; its handler holds the cloud of every keyframe it
published.  A message is about such keyframes.  Each callback keeps this, whatever message reaches
it and whenever.
-/

namespace RoverSwarm.Swarm

open Exchange LidarHandler Pgo Selection

variable {K Cloud P D T Gps : Type*} [Arithmetic K] {S : Setup K Cloud P D T}
  {ms ms' : List (Message P D T)} {r : ℕ}

/-! ### Messages -/

/-- The outcome of a registration. -/
def Setup.measured (S : Setup K Cloud P D T) (pc0 pc1 : List P) : T × Bool :=
  let (transform, success) := S.computeTransform pc0 pc1
  (if success then transform else S.unset, success)

/-- What is measured is measured between the clouds of two published keyframes. -/
def Measured (S : Setup K Cloud P D T) (ms : List (Message P D T)) (v w : Vertex)
    (outcome : T × Bool) : Prop :=
  ∃ pc0 pc1, .keyframeData v.1 v.2 pc0 ∈ ms ∧ .keyframeData w.1 w.2 pc1 ∈ ms ∧
    outcome = S.measured pc0 pc1

/-- The cloud of keyframe `v` was published, and `v` is similar enough to the others. -/
structure Asked (S : Setup K Cloud P D T) (ms : List (Message P D T)) (v : Vertex)
    (others : List Vertex) : Prop where
  known : ∃ pointcloud, .keyframeData v.1 v.2 pointcloud ∈ ms
  similar : ∀ w ∈ others, Similar S ms v w

def MessageOk (S : Setup K Cloud P D T) (ms : List (Message P D T)) : Message P D T → Prop
  | .keyframeData robot _ _ => robot < S.nbRobots
  | .globalDescriptors descriptors => descriptors ≠ [] ∧
    ∃ o < S.nbRobots, ∀ d ∈ descriptors, d.robotId = o ∧ Keyframe S ms (o, d.keyframeId) d.descriptor
  | .interRobotMatches msg => ∀ m ∈ msg.matches_,
    SimilarEdge S ms (GlobalDescriptorLoopClosureDetection.matchToEdge m)
  | .localKeyframeMatch robot kf kf' => LocallySimilar S ms robot kf kf'
  | .localDescriptorsRequest robot request =>
    Asked S ms (robot, request.keyframeId) request.matchesRobotAndKeyframeId
  | .localDescriptors msg =>
    Asked S ms (msg.robotId, msg.keyframeId) msg.matchesRobotAndKeyframeId ∧
      .keyframeData msg.robotId msg.keyframeId msg.data ∈ ms
  | .interRobotLoopClosure msg =>
    Similar S ms (msg.robot0Id, msg.robot0KeyframeId) (msg.robot1Id, msg.robot1KeyframeId) ∧
      Measured S ms (msg.robot0Id, msg.robot0KeyframeId) (msg.robot1Id, msg.robot1KeyframeId)
        (msg.transform, msg.success)
  | .intraRobotLoopClosure robot msg =>
    LocallySimilar S ms robot msg.keyframe0Id msg.keyframe1Id ∧
      Measured S ms (robot, msg.keyframe0Id) (robot, msg.keyframe1Id) (msg.transform, msg.success)

theorem Measured.mono {v w : Vertex} {outcome : T × Bool} (h : Measured S ms v w outcome)
    (hsub : ms ⊆ ms') : Measured S ms' v w outcome := by
  obtain ⟨pc0, pc1, h0, h1, heq⟩ := h
  exact ⟨pc0, pc1, hsub h0, hsub h1, heq⟩

theorem Asked.mono {v : Vertex} {others : List Vertex} (h : Asked S ms v others)
    (hsub : ms ⊆ ms') : Asked S ms' v others := by
  obtain ⟨pointcloud, hmem⟩ := h.known
  exact ⟨⟨pointcloud, hsub hmem⟩, fun w hw => (h.similar w hw).mono hsub⟩

theorem MessageOk.mono {m : Message P D T} (h : MessageOk S ms m) (hsub : ms ⊆ ms') :
    MessageOk S ms' m := by
  cases m with
  | keyframeData robot id pointcloud => exact h
  | globalDescriptors descriptors =>
    obtain ⟨hne, o, ho, hall⟩ := h
    exact ⟨hne, o, ho, fun d hd => ⟨(hall d hd).1, (hall d hd).2.mono hsub⟩⟩
  | interRobotMatches msg => exact fun m hm => Similar.mono (h m hm) hsub
  | localKeyframeMatch robot kf kf' => exact LocallySimilar.mono h hsub
  | localDescriptorsRequest robot request => exact Asked.mono h hsub
  | localDescriptors msg => exact ⟨h.1.mono hsub, hsub h.2⟩
  | interRobotLoopClosure msg => exact ⟨h.1.mono hsub, h.2.mono hsub⟩
  | intraRobotLoopClosure robot msg => exact ⟨h.1.mono hsub, h.2.mono hsub⟩

/-! ### The detector -/

/-- The structure holds keyframes of robot `o`. -/
def Stored (S : Setup K Cloud P D T) (ms : List (Message P D T)) (o : ℕ) (store : S.matcher.Store) :
    Prop :=
  ∃ es, store = S.matcher.stored es ∧ ∀ e ∈ es, Keyframe S ms (o, e.2) e.1

theorem stored_empty (o : ℕ) : Stored S ms o S.matcher.empty :=
  ⟨[], rfl, fun _ he => absurd he List.not_mem_nil⟩

theorem Stored.mono {o : ℕ} {store : S.matcher.Store} (h : Stored S ms o store) (hsub : ms ⊆ ms') :
    Stored S ms' o store := by
  obtain ⟨es, rfl, hes⟩ := h
  exact ⟨es, rfl, fun e he => (hes e he).mono hsub⟩

theorem Stored.addItem {o : ℕ} {store : S.matcher.Store} (h : Stored S ms o store) {d : D} {kf : ℕ}
    (hd : Keyframe S ms (o, kf) d) : Stored S ms o (S.matcher.addItem store d kf) := by
  obtain ⟨es, rfl, hes⟩ := h
  refine ⟨es ++ [(d, kf)], (S.matcher.stored_concat es (d, kf)).symm, fun e he => ?_⟩
  rcases List.mem_append.mp he with he | he
  · exact hes e he
  · obtain rfl := List.mem_singleton.mp he
    exact hd

/-- The detector of robot `r`. -/
structure DetectorOk (S : Setup K Cloud P D T) (ms : List (Message P D T)) (r : ℕ)
    (g : GlobalDescriptorLoopClosureDetection S.matcher) : Prop where
  locals : Stored S ms r g.lcm.localNnsm
  others : ∀ o, Stored S ms o (g.lcm.otherRobotsNnsm o)
  selector : SelectorOk S ms r g.lcm.candidateSelector
  robotId : g.neighborManager.robotId = r
  maxNbRobots : g.neighborManager.maxNbRobots = S.nbRobots
  descriptors : ∀ x ∈ g.globalDescriptorsBuffer.entries,
    x.2.robotId = r ∧ Keyframe S ms (r, x.2.keyframeId) x.2.descriptor
  matches_ : ∀ x ∈ g.interRobotMatchesBuffer.entries, SimilarEdge S ms x.2

theorem DetectorOk.mono {g : GlobalDescriptorLoopClosureDetection S.matcher}
    (h : DetectorOk S ms r g) (hsub : ms ⊆ ms') : DetectorOk S ms' r g where
  locals := h.locals.mono hsub
  others o := (h.others o).mono hsub
  selector := h.selector.mono hsub
  robotId := h.robotId
  maxNbRobots := h.maxNbRobots
  descriptors x hx := ⟨(h.descriptors x hx).1, (h.descriptors x hx).2.mono hsub⟩
  matches_ x hx := (h.matches_ x hx).mono hsub

section Detector

variable {g : GlobalDescriptorLoopClosureDetection S.matcher}

open GlobalDescriptorLoopClosureDetection LoopClosureSparseMatching

theorem DetectorOk.withSelector (h : DetectorOk S ms r g) {s : AlgebraicConnectivityMaximization}
    (hs : SelectorOk S ms r s) : DetectorOk S ms r (g.withSelector s) :=
  { h with selector := hs }

theorem DetectorOk.storeMatches (h : DetectorOk S ms r g) {edges : List EdgeInterRobot}
    (hedges : ∀ m ∈ edges, SimilarEdge S ms m) : DetectorOk S ms r (g.storeMatches edges) := by
  unfold GlobalDescriptorLoopClosureDetection.storeMatches
  induction edges generalizing g with
  | nil => exact h
  | cons m edges ih =>
    obtain ⟨hm, hrest⟩ := List.forall_mem_cons.mp hedges
    refine ih { h with matches_ := fun x hx => ?_ } hrest
    rcases SortedDict.mem_insertEntry hx with rfl | hx
    · exact hm
    · exact h.matches_ x hx

/-- A match of keyframe `kf` of robot `r` with the best keyframe stored for robot `o`. -/
theorem similarEdge_localMatch (hr : r < S.nbRobots) (h : DetectorOk S ms r g) {embedding : D}
    {kf o : ℕ} (hkf : Keyframe S ms (r, kf) embedding) (ho : o < S.nbRobots) {m : EdgeInterRobot}
    (hm : localMatch (S.detectionOf r).toLoopClosureParams g.lcm embedding kf o = some m) :
    SimilarEdge S ms m := by
  obtain ⟨hne, hbest⟩ := Option.ite_none_right_eq_some.mp hm
  obtain ⟨es, hstore, hes⟩ := h.others o
  rw [hstore] at hbest
  obtain ⟨e, he, hle, rfl⟩ := bestMatch_stored hbest
  exact ⟨hr, ho, Ne.symm hne, embedding, e.1, hkf, hes e he, Or.inl hle⟩

/-- What is found among the own keyframes, whichever matching structure is used. -/
theorem locallySimilar_of_match (h : DetectorOk S ms r g) {embedding : D} {kfId : ℕ}
    (hkf : Keyframe S ms (r, kfId) embedding) {x : ℕ × List (Option ℕ)}
    (hx : g.lcm.matchLocalLoopClosures (S.detectionOf r).toLoopClosureParams embedding kfId =
      some x) : LocallySimilar S ms r kfId x.1 := by
  obtain ⟨es, hstore, hes⟩ := h.locals
  have hfound : ∀ found, found ⊆ S.matcher.search g.lcm.localNnsm embedding
      (S.detectionOf r).nbBestMatches →
      firstAllowed (S.detectionOf r).toLoopClosureParams kfId found = some x →
      LocallySimilar S ms r kfId x.1 := by
    intro found hsub hfirst
    obtain ⟨-, hmap⟩ := Option.ite_none_left_eq_some.mp hfirst
    obtain ⟨y, hfind, rfl⟩ := Option.map_eq_some_iff.mp hmap
    have hallowed := List.find?_some hfind
    rw [Bool.and_eq_true] at hallowed
    obtain ⟨hfar, hle⟩ := hallowed
    obtain ⟨z, hz, rfl⟩ := List.mem_filterMap.mp (List.mem_of_find?_eq_some hfind)
    have hsearch := hsub hz
    rw [hstore] at hsearch
    obtain ⟨e, he, rfl⟩ := S.matcher.search_mem es embedding _ y hsearch
    refine ⟨embedding, e.1, hkf, hes e he, ?_, ?_⟩
    · show (S.detectionOf r).similarityThreshold ≤ _
      simpa using hle
    · show (S.detectionOf r).intraLoopMinInbetweenKeyframes ≤ _
      simpa [farEnough] using hfar
  unfold matchLocalLoopClosures at hx
  dsimp only at hx
  split_ifs at hx
  · exact hfound _ (List.tail_subset _) hx
  · exact hfound _ (List.Subset.refl _) hx

/-- **A keyframe of its own** reaches the robot, and no lookup raises. -/
theorem DetectorOk.addGlobalDescriptorToMap (hr : r < S.nbRobots) (h : DetectorOk S ms r g)
    {embedding : D} {kf : ℕ} (hkf : Keyframe S ms (r, kf) embedding) :
    ∃ g' localMatch, g.addGlobalDescriptorToMap (S.detectionOf r) embedding kf =
        some (g', localMatch) ∧ DetectorOk S ms r g' ∧
      ∀ m, localMatch = some m → LocallySimilar S ms r m.1 m.2 := by
  have hmatches : ∀ m ∈ localMatches (S.detectionOf r).toLoopClosureParams g.lcm embedding kf,
      SimilarEdge S ms m := by
    intro m hm
    obtain ⟨o, ho, hmatch⟩ := List.mem_filterMap.mp hm
    exact similarEdge_localMatch hr h hkf (List.mem_range.mp ho) hmatch
  have hadd : g.lcm.addLocalGlobalDescriptor (S.detectionOf r).toLoopClosureParams embedding kf = _ :=
    addLocalGlobalDescriptor_of_knows fun m hm => h.selector.knows (hmatches m hm)
  refine ⟨_, _, (congrArg (Option.map _) hadd), DetectorOk.storeMatches ?_ hmatches, fun m hm => ?_⟩
  · exact
      { h with
        locals := h.locals.addItem hkf
        selector := h.selector.foldl_addMatch hmatches
        descriptors := fun x hx => by
          rcases SortedDict.mem_insertEntry hx with rfl | hx
          · exact ⟨h.robotId, hkf⟩
          · exact h.descriptors x hx }
  · have hintra : g.detectIntra (S.detectionOf r) embedding kf = some m := hm
    obtain ⟨-, hmap⟩ := Option.ite_none_right_eq_some.mp hintra
    obtain ⟨x, hx, rfl⟩ := Option.map_eq_some_iff.mp hmap
    exact locallySimilar_of_match h hkf hx

/-! ### Other robots -/

/-- A match of a keyframe of another robot with the best keyframe of its own. -/
theorem similarEdge_otherMatch (hr : r < S.nbRobots) (h : DetectorOk S ms r g)
    {d : GlobalDescriptor D} (hd : DescriptorOk S ms d) (hne : d.robotId ≠ r) {m : EdgeInterRobot}
    (hm : otherMatch (S.detectionOf r).toLoopClosureParams g.lcm d = some m) :
    SimilarEdge S ms m := by
  obtain ⟨es, hstore, hes⟩ := h.locals
  unfold otherMatch at hm
  rw [hstore] at hm
  obtain ⟨e, he, hle, rfl⟩ := bestMatch_stored hm
  exact ⟨hr, hd.robotId, hne.symm, e.1, d.descriptor, hes e he, hd.keyframe, Or.inr hle⟩

theorem DetectorOk.receiveDescriptor (hr : r < S.nbRobots) (h : DetectorOk S ms r g)
    {d : GlobalDescriptor D} (hd : DescriptorOk S ms d) (hne : d.robotId ≠ r) :
    ∃ g', receiveDescriptor (S.detectionOf r) g d = some g' ∧ DetectorOk S ms r g' := by
  have hmatch : ∀ m ∈ otherMatch (S.detectionOf r).toLoopClosureParams g.lcm d,
      SimilarEdge S ms m := fun m hm => similarEdge_otherMatch hr h hd hne hm
  have hadd : g.lcm.addOtherRobotGlobalDescriptor (S.detectionOf r).toLoopClosureParams d = _ :=
    addOtherRobotGlobalDescriptor_of_knows hd.robotId hne fun m hm => h.selector.knows (hmatch m hm)
  have hmatches : ∀ m ∈ (otherMatch (S.detectionOf r).toLoopClosureParams g.lcm d).toList,
      SimilarEdge S ms m := fun m hm => hmatch m (Option.mem_toList.mp hm)
  refine ⟨_, congrArg (Option.map _) hadd, DetectorOk.storeMatches ?_ hmatches⟩
  refine { h with others := fun o => ?_, selector := h.selector.foldl_addMatch hmatches }
  show Stored S ms o (Function.update g.lcm.otherRobotsNnsm d.robotId _ o)
  by_cases ho : o = d.robotId
  · subst ho
    rw [Function.update_self]
    exact (h.others _).addItem hd.keyframe
  · rw [Function.update_of_ne ho]
    exact h.others o

/-- **A message with descriptors** reaches the robot, and no lookup raises. -/
theorem DetectorOk.globalDescriptorCallback (hr : r < S.nbRobots) (h : DetectorOk S ms r g)
    {descriptors : List (GlobalDescriptor D)}
    (hm : MessageOk S ms (.globalDescriptors descriptors : Message P D T)) :
    ∃ g', g.globalDescriptorCallback (S.detectionOf r) descriptors = some g' ∧
      DetectorOk S ms r g' := by
  obtain ⟨hnil, o, ho, hall⟩ := hm
  obtain ⟨d, rest, rfl⟩ := List.exists_cons_of_ne_nil hnil
  obtain ⟨hd, -⟩ := hall d List.mem_cons_self
  show ∃ g', (if d.robotId ≠ r then _ else _) = some g' ∧ _
  by_cases hne : d.robotId ≠ r
  · have hother : d.robotId ∈ g.neighborManager.others := by
      rw [NeighborManager.others, h.robotId, h.maxNbRobots, List.mem_filter, List.mem_range]
      exact ⟨hd ▸ ho, decide_eq_true hne⟩
    have hmanager : DetectorOk S ms r { g with
        neighborManager := (getUnknownRange g.neighborManager (d :: rest) d.robotId).1 } :=
      { h with }
    rw [if_pos hne, if_pos hother]
    refine Walk.exists_foldlM (DetectorOk S ms r) (fun d' hd' g' hg' => ?_) hmanager
    obtain ⟨hd', hkf⟩ := hall d' (List.mem_of_mem_filter hd')
    subst hd'
    exact hg'.receiveDescriptor hr ⟨ho, hkf⟩ (hd ▸ hne)
  · rw [if_neg hne]
    exact ⟨g, rfl, h⟩

theorem DetectorOk.interRobotMatchesCallback (h : DetectorOk S ms r g) {msg : InterRobotMatches}
    (hm : MessageOk S ms (.interRobotMatches msg : Message P D T)) :
    ∃ g', g.interRobotMatchesCallback (S.detectionOf r) msg = some g' ∧ DetectorOk S ms r g' := by
  unfold GlobalDescriptorLoopClosureDetection.interRobotMatchesCallback
  split_ifs
  · have hedges : ∀ e ∈ msg.matches_.map GlobalDescriptorLoopClosureDetection.matchToEdge,
        SimilarEdge S ms e := by
      intro e he
      obtain ⟨m, hmem, rfl⟩ := List.mem_map.mp he
      exact hm m hmem
    obtain ⟨s, hs, hok⟩ := h.selector.foldlM_tryAddMatch hedges
    rw [hs]
    exact ⟨_, rfl, h.withSelector hok⟩
  · exact ⟨g, rfl, h⟩

/-! ### Timers -/

theorem DetectorOk.globalDescriptorsTimerCallback (hr : r < S.nbRobots) (h : DetectorOk S ms r g)
    (now now' : ℕ → ℚ) :
    DetectorOk S ms r (g.globalDescriptorsTimerCallback (S.detectionOf r) now now').1 ∧
      ∀ msg ∈ (g.globalDescriptorsTimerCallback (S.detectionOf r) now now').2,
        MessageOk S ms (.globalDescriptors msg : Message P D T) := by
  have hsends := globalDescriptorsTimerCallback_sendsFrom
    ⟨g.neighborManager, g.globalDescriptorsBuffer⟩ (S.detectionOf r).detectionPublicationMaxElemsPerMsg
    now now'
  obtain ⟨hid, hmax⟩ := globalDescriptorsTimerCallback_neighborManager
    ⟨g.neighborManager, g.globalDescriptorsBuffer⟩ (S.detectionOf r).detectionPublicationMaxElemsPerMsg
    now now'
  refine ⟨?_, fun msg hmsg =>
    ⟨globalDescriptorsTimerCallback_ne_nil _ _ _ _ msg hmsg, r, hr, fun d hd => ?_⟩⟩
  · exact
      { h with
        robotId := hid.trans h.robotId
        maxNbRobots := hmax.trans h.maxNbRobots
        descriptors := fun x hx => h.descriptors x (hsends.kept hx) }
  · obtain ⟨x, hx, rfl⟩ := List.mem_map.mp (hsends.sent msg hmsg d hd)
    exact h.descriptors x hx

theorem DetectorOk.interRobotMatchesTimerCallback (h : DetectorOk S ms r g)
    (now now' now'' : ℕ → ℚ) :
    DetectorOk S ms r (g.interRobotMatchesTimerCallback (S.detectionOf r) now now' now'').1 ∧
      ∀ msg ∈ (g.interRobotMatchesTimerCallback (S.detectionOf r) now now' now'').2,
        MessageOk S ms (.interRobotMatches msg : Message P D T) := by
  obtain ⟨hid, hmax⟩ := interRobotMatchesTimerCallback_neighborManager
    ⟨g.neighborManager, g.interRobotMatchesBuffer⟩
    (S.detectionOf r).detectionPublicationMaxElemsPerMsg now now' now''
  refine ⟨?_, fun msg hmsg m hm => ?_⟩
  · exact
      { h with
        robotId := hid.trans h.robotId
        maxNbRobots := hmax.trans h.maxNbRobots
        matches_ := fun x hx => h.matches_ x (interRobotMatchesTimerCallback_subset _ _ _ _ _ hx) }
  · obtain ⟨x, hx, rfl⟩ := mem_interRobotMatchesTimerCallback hmsg hm
    exact h.matches_ x hx

end Detector

end RoverSwarm.Swarm
