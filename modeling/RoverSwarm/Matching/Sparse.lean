import RoverSwarm.Exchange.Descriptors
import RoverSwarm.Matching
import RoverSwarm.Selection.SingleGraph

/-!
# Matching.Sparse — `LoopClosureSparseMatching`

A robot holds the global descriptors of its own keyframes in one matching structure and those of
each other robot in another.  A descriptor that arrives is looked up on the other side, so a pair of
keyframes is looked at when the later one arrives.  The class works with either of two matching
structures: what it uses of them, and what it may rely on, is a `Matcher`.

The dictionary of the other robots' structures has an entry for every id below `max_nb_robots` but
the robot's own, and is a function here; a lookup of another id raises.
-/

namespace RoverSwarm

open Exchange Ranking Selection Transition

/-! ### Matching structures -/

/-- What is used of a matching structure.  `search` returns the keyframes found with their
similarities, or `[None]` for nothing; `search_best` returns `None` for nothing.  What they find was
added, and its similarity is the one of the two descriptors. -/
structure Matcher (D : Type*) where
  Store : Type
  empty : Store
  addItem : Store → D → ℕ → Store
  search : Store → D → ℕ → List (Option (ℕ × ℚ))
  searchBest : Store → D → Option (ℕ × ℚ)
  similarity : D → D → ℚ
  search_mem : ∀ (es : List (D × ℕ)) (query : D) (k : ℕ) (x : ℕ × ℚ),
    some x ∈ search (es.foldl (fun s e => addItem s e.1 e.2) empty) query k →
      ∃ e ∈ es, x = (e.2, similarity query e.1)
  searchBest_mem : ∀ (es : List (D × ℕ)) (query : D) (x : ℕ × ℚ),
    searchBest (es.foldl (fun s e => addItem s e.1 e.2) empty) query = some x →
      ∃ e ∈ es, x = (e.2, similarity query e.1)

namespace Matcher

variable {D : Type*} (M : Matcher D)

/-- The structure that items were added to. -/
def stored (es : List (D × ℕ)) : M.Store := es.foldl (fun s e => M.addItem s e.1 e.2) M.empty

@[simp] theorem stored_nil : M.stored [] = M.empty := rfl

@[simp] theorem stored_concat (es : List (D × ℕ)) (e : D × ℕ) :
    M.stored (es ++ [e]) = M.addItem (M.stored es) e.1 e.2 := by
  unfold stored
  rw [List.foldl_append]
  rfl

/-- What an entry is worth to a query. -/
def worth (query : D) (e : D × ℕ) : ℚ := M.similarity query e.1

/-- The structure looks at every entry, and returns the most similar ones. -/
structure Exact : Prop where
  search : ∀ es query k, ∃ best, IsBest (M.worth query) k es best ∧
    M.search (M.stored es) query k = best.map fun e => some (e.2, M.worth query e)
  searchBest : ∀ es query, ∃ best, IsBest (M.worth query) 1 es best ∧
    M.searchBest (M.stored es) query = best.head?.map fun e => (e.2, M.worth query e)

end Matcher

namespace NearestNeighborsMatching

/-! ### Nearest neighbors as a matcher

The vectors have one length, so they are never refused, and cosines that are numbers. -/

variable (toFloat32 : ℚ → ℚ) (cosine : List ℚ → List ℚ → ℚ) (argsort : Argsort ℚ) (d : ℕ)

abbrev Vec (d : ℕ) := {v : List ℚ // v.length = d}

variable {d} in
/-- `add_item` of a vector that fits. -/
def addVec (s : NearestNeighborsMatching ℕ) (v : Vec d) (item : ℕ) : NearestNeighborsMatching ℕ :=
  (s.addItem toFloat32 v.1 item).getD s

def storedVecs (es : List (Vec d × ℕ)) : NearestNeighborsMatching ℕ :=
  es.foldl (fun s e => addVec toFloat32 s e.1 e.2) (init none)

/-- The entries as vectors of any length. -/
def plain (es : List (Vec d × ℕ)) : List (List ℚ × ℕ) := es.map fun e => (e.1.1, e.2)

variable {d}

theorem Stores.addVec {toFloat32 : ℚ → ℚ} {s : NearestNeighborsMatching ℕ} {es : List (List ℚ × ℕ)}
    (h : Stores toFloat32 d s es) (v : Vec d) (item : ℕ) :
    Stores toFloat32 d (addVec toFloat32 s v item) (es ++ [(v.1, item)]) := by
  obtain ⟨s', hadd, hstores⟩ := h.addItem (e := (v.1, item)) (Or.inl v.2)
  unfold NearestNeighborsMatching.addVec
  rwa [hadd, Option.getD_some]

/-- The first vector makes the array. -/
theorem addItem_init (v : List ℚ) (item : ℕ) : (init none).addItem toFloat32 v item =
    (init (some v.length)).addItem toFloat32 v item := rfl

theorem stores_storedVecs {es : List (Vec d × ℕ)} (hne : es ≠ []) :
    Stores toFloat32 d (storedVecs toFloat32 d es) (plain d es) := by
  induction es using List.reverseRecOn with
  | nil => exact absurd rfl hne
  | append_singleton es e ih =>
    have hlast : storedVecs toFloat32 d (es ++ [e]) =
        addVec toFloat32 (storedVecs toFloat32 d es) e.1 e.2 := by
      unfold storedVecs
      rw [List.foldl_append]
      rfl
    have hplain : plain d (es ++ [e]) = plain d es ++ [(e.1.1, e.2)] := List.map_append
    rw [hlast, hplain]
    by_cases hes : es = []
    · subst hes
      have hempty : Stores toFloat32 d (init (ι := ℕ) (some d)) [] := stores_init d
      obtain ⟨s', hadd, hstores⟩ := hempty.addItem (e := (e.1.1, e.2)) (Or.inl e.1.2)
      have hinit : (init none).addItem toFloat32 e.1.1 e.2 = some s' := by
        rw [addItem_init, e.1.2, hadd]
      show Stores toFloat32 d (((init none).addItem toFloat32 e.1.1 e.2).getD (init none)) _
      rwa [hinit, Option.getD_some]
    · exact (ih hes).addVec e.1 e.2

/-- The similarity of a query and a vector that is stored. -/
def vecSimilarity (query v : Vec d) : ℚ := 1 - cosine query.1 (row toFloat32 d v.1)

/-- A cosine distance that never raises. -/
def number (u v : List ℚ) : Option ℚ := some (cosine u v)

/-- What an entry is worth to a query. -/
def vecWorth (d : ℕ) (query : List ℚ) (e : List ℚ × ℕ) : ℚ := 1 - cosine query (row toFloat32 d e.1)

theorem similarity_number (d : ℕ) (query : List ℚ) (es : List (List ℚ × ℕ)) : ∀ e ∈ es,
    similarity toFloat32 (number cosine) d query e = some (vecWorth toFloat32 cosine d query e) :=
  fun _ _ => rfl

/-- The best entries, as `argsort` finds them. -/
def bestVecs (query : Vec d) (es : List (Vec d × ℕ)) (k : ℕ) : List (Vec d × ℕ) :=
  argsort.pick (fun e => vecSimilarity toFloat32 cosine query e.1) es k

theorem storedVecs_search (es : List (Vec d × ℕ)) (query : Vec d) (k : ℕ) :
    (storedVecs toFloat32 d es).search (number cosine) argsort query.1 k =
      some ((bestVecs toFloat32 cosine argsort query es k).map Prod.snd,
        (bestVecs toFloat32 cosine argsort query es k).map
          fun e => vecSimilarity toFloat32 cosine query e.1) := by
  by_cases hes : es = []
  · subst hes
    have hnil : bestVecs toFloat32 cosine argsort query [] k = [] :=
      List.filterMap_eq_nil_iff.mpr fun _ _ => List.getElem?_nil
    rw [hnil]
    rfl
  · rw [(stores_storedVecs toFloat32 hes).search (similarity_number toFloat32 cosine d query.1 _),
      plain, Argsort.pick_map, List.map_map, List.map_map]
    rfl

theorem storedVecs_searchBest (es : List (Vec d × ℕ)) (query : Vec d) :
    (storedVecs toFloat32 d es).searchBest (number cosine) argsort query.1 =
      some ((bestVecs toFloat32 cosine argsort query es 1).head?.map
        fun e => (e.2, vecSimilarity toFloat32 cosine query e.1)) := by
  by_cases hes : es = []
  · subst hes
    have hnil : bestVecs toFloat32 cosine argsort query [] 1 = [] :=
      List.filterMap_eq_nil_iff.mpr fun _ _ => List.getElem?_nil
    rw [hnil]
    rfl
  · have hne : plain d es ≠ [] := fun h => hes (List.map_eq_nil_iff.mp h)
    obtain ⟨b, hb, hsearch⟩ :=
      (stores_storedVecs toFloat32 hes).searchBest hne
        (similarity_number toFloat32 cosine d query.1 _) argsort
    rw [plain, Argsort.pick_map] at hb
    have hhead : ((bestVecs toFloat32 cosine argsort query es 1).map
        fun e => (e.1.1, e.2)).head? = some b := congrArg List.head? hb
    rw [List.head?_map] at hhead
    obtain ⟨e, he, rfl⟩ := Option.map_eq_some_iff.mp hhead
    rw [hsearch, he]
    rfl

/-- The two lists of `search` as one. -/
def searchVecs (s : NearestNeighborsMatching ℕ) (query : Vec d) (k : ℕ) : List (Option (ℕ × ℚ)) :=
  match s.search (number cosine) argsort query.1 k with
  | some (items, similarities) => (items.zip similarities).map some
  | none => []

theorem storedVecs_searchVecs (es : List (Vec d × ℕ)) (query : Vec d) (k : ℕ) :
    searchVecs cosine argsort (storedVecs toFloat32 d es) query k =
      (bestVecs toFloat32 cosine argsort query es k).map
        fun e => some (e.2, vecSimilarity toFloat32 cosine query e.1) := by
  unfold searchVecs
  rw [storedVecs_search]
  dsimp only
  rw [List.zip_map', List.map_map]
  rfl

/-- Nearest neighbors among vectors of length `d`. -/
def matcher (d : ℕ) : Matcher (Vec d) where
  Store := NearestNeighborsMatching ℕ
  empty := init none
  addItem := addVec toFloat32
  search := searchVecs cosine argsort
  searchBest s query := (s.searchBest (number cosine) argsort query.1).join
  similarity := vecSimilarity toFloat32 cosine
  search_mem es query k x hx := by
    have hsearch := storedVecs_searchVecs toFloat32 cosine argsort es query k
    unfold storedVecs at hsearch
    rw [hsearch] at hx
    obtain ⟨e, he, heq⟩ := List.mem_map.mp hx
    exact ⟨e, (argsort.isBest _ es k).mem he, (Option.some.inj heq).symm⟩
  searchBest_mem es query x hx := by
    have hsearch := storedVecs_searchBest toFloat32 cosine argsort es query
    unfold storedVecs at hsearch
    rw [hsearch, Option.join_some] at hx
    obtain ⟨e, he, heq⟩ := Option.map_eq_some_iff.mp hx
    exact ⟨e, (argsort.isBest _ es 1).mem (List.mem_of_head? he), heq.symm⟩

/-- It looks at every entry. -/
theorem matcher_exact (d : ℕ) : (matcher toFloat32 cosine argsort d).Exact where
  search es query k := ⟨_, argsort.isBest _ es k, storedVecs_searchVecs toFloat32 cosine argsort es
    query k⟩
  searchBest es query := by
    refine ⟨_, argsort.isBest _ es 1, ?_⟩
    show (((storedVecs toFloat32 d es).searchBest (number cosine) argsort query.1).join) = _
    rw [storedVecs_searchBest, Option.join_some]
    rfl

end NearestNeighborsMatching

/-! ### Matches of unknown robots -/

namespace Selection.AlgebraicConnectivityMaximization

variable {s s' : AlgebraicConnectivityMaximization} {m : EdgeInterRobot}

/-- The robots of an edge have entries in `nb_poses`. -/
def Knows (s : AlgebraicConnectivityMaximization) (m : EdgeInterRobot) : Prop :=
  m.robot0Id < s.maxNbRobots ∧ m.robot1Id < s.maxNbRobots

instance (s : AlgebraicConnectivityMaximization) (m : EdgeInterRobot) : Decidable (s.Knows m) :=
  inferInstanceAs (Decidable (_ ∧ _))

/-- `add_match` has a candidate to store, and comes to `update_nb_poses`. -/
def adds (s : AlgebraicConnectivityMaximization) (m : EdgeInterRobot) : Bool :=
  let key := (m.robot0Id, m.robot0KeyframeId, m.robot1Id, m.robot1KeyframeId)
  (s.candidateEdges.get? key).all (fun candidate => m.weight > candidate.weight) &&
    edgeKey m ∉ s.alreadyConsideredMatches

/-- `add_match` with its lookups in `nb_poses`. -/
def tryAddMatch (s : AlgebraicConnectivityMaximization) (m : EdgeInterRobot) :
    Option AlgebraicConnectivityMaximization :=
  if s.adds m = true ∧ ¬ s.Knows m then none else some (s.addMatch m)

theorem addMatch_of_tryAddMatch (h : s.tryAddMatch m = some s') : s.addMatch m = s' :=
  Option.some.inj (Option.ite_none_left_eq_some.mp h).2

theorem tryAddMatch_of_knows (h : s.Knows m) : s.tryAddMatch m = some (s.addMatch m) :=
  if_neg fun hfails => hfails.2 h

theorem Knows.addMatch (h : s.Knows m) (m' : EdgeInterRobot) : (s.addMatch m').Knows m := by
  have hmax := (addMatch_addsFixed s m').maxNbRobots
  unfold Knows
  rw [hmax]
  exact h

end Selection.AlgebraicConnectivityMaximization

/-! ### The class -/

/-- The parameters that are read. -/
structure LoopClosureParams where
  robotId : ℕ
  maxNbRobots : ℕ
  similarityThreshold : ℚ
  nbBestMatches : ℕ
  intraLoopMinInbetweenKeyframes : ℤ

structure LoopClosureSparseMatching {D : Type*} (M : Matcher D) where
  localNnsm : M.Store := M.empty
  otherRobotsNnsm : ℕ → M.Store := fun _ => M.empty
  candidateSelector : AlgebraicConnectivityMaximization

namespace LoopClosureSparseMatching

variable {D : Type*} {M : Matcher D} (p : LoopClosureParams)

/-- The match with the best keyframe of a structure, if it is similar enough. -/
def bestMatch (store : M.Store) (query : D) (edge : ℕ → ℚ → EdgeInterRobot) :
    Option EdgeInterRobot :=
  match M.searchBest store query with
  | some (kf, similarity) =>
    if similarity ≥ p.similarityThreshold then some (edge kf similarity) else none
  | none => none

/-- The match of a local keyframe with robot `i`. -/
def localMatch (s : LoopClosureSparseMatching M) (embedding : D) (keyframeId i : ℕ) :
    Option EdgeInterRobot :=
  if i ≠ p.robotId then
    bestMatch p (s.otherRobotsNnsm i) embedding fun kf similarity =>
      ⟨p.robotId, keyframeId, i, kf, similarity⟩
  else none

/-- The body of the loop of `add_local_global_descriptor`. -/
def localStep (s : LoopClosureSparseMatching M) (embedding : D) (keyframeId : ℕ)
    (acc : AlgebraicConnectivityMaximization × List EdgeInterRobot) (i : ℕ) :
    Option (AlgebraicConnectivityMaximization × List EdgeInterRobot) :=
  match localMatch p s embedding keyframeId i with
  | some m => (acc.1.tryAddMatch m).map fun selector => (selector, acc.2 ++ [m])
  | none => some acc

/-- `add_local_global_descriptor`; `none` if it raises. -/
def addLocalGlobalDescriptor (s : LoopClosureSparseMatching M) (embedding : D) (keyframeId : ℕ) :
    Option (LoopClosureSparseMatching M × List EdgeInterRobot) :=
  ((List.range p.maxNbRobots).foldlM (localStep p s embedding keyframeId)
    (s.candidateSelector, [])).map fun (selector, matches_) =>
      ({ s with
        localNnsm := M.addItem s.localNnsm embedding keyframeId
        candidateSelector := selector }, matches_)

/-- `add_other_robot_global_descriptor`; `none` if it raises, as it does for an id that
`other_robots_nnsm` does not have. -/
def addOtherRobotGlobalDescriptor (s : LoopClosureSparseMatching M) (msg : GlobalDescriptor D) :
    Option (LoopClosureSparseMatching M × Option EdgeInterRobot) :=
  if msg.robotId < p.maxNbRobots ∧ msg.robotId ≠ p.robotId then
    let store := M.addItem (s.otherRobotsNnsm msg.robotId) msg.descriptor msg.keyframeId
    let s := { s with otherRobotsNnsm := Function.update s.otherRobotsNnsm msg.robotId store }
    let m := bestMatch p s.localNnsm msg.descriptor fun kf similarity =>
      ⟨p.robotId, kf, msg.robotId, msg.keyframeId, similarity⟩
    match m with
    | some m => (s.candidateSelector.tryAddMatch m).map fun selector =>
      ({ s with candidateSelector := selector }, some m)
    | none => some (s, none)
  else none

/-- Whether a keyframe that was found is far enough from keyframe `kfId`. -/
def farEnough (kfId kf : ℕ) : Bool :=
  !decide (|(kf : ℤ) - kfId| < p.intraLoopMinInbetweenKeyframes)

/-- The end of `match_local_loop_closures`, on what is left of what was found. -/
def firstAllowed (kfId : ℕ) (found : List (Option (ℕ × ℚ))) : Option (ℕ × List (Option ℕ)) :=
  if found.head?.join = none then none
  else
    ((found.filterMap id).find? fun x => farEnough p kfId x.1 &&
        !decide (x.2 < p.similarityThreshold)).map fun x =>
      (x.1, found.map (Option.map Prod.fst))

/-- `match_local_loop_closures`: the keyframe, and the keyframes found. -/
def matchLocalLoopClosures (s : LoopClosureSparseMatching M) (descriptor : D) (kfId : ℕ) :
    Option (ℕ × List (Option ℕ)) :=
  let found := M.search s.localNnsm descriptor p.nbBestMatches
  if (found.head?.map fun x => x.map Prod.fst) = some (some kfId) then
    firstAllowed p kfId found.tail
  else firstAllowed p kfId found

/-! ### The matches of one call -/

section Calls

variable {p} {s : LoopClosureSparseMatching M} {embedding : D} {keyframeId : ℕ}

/-- The matches of a local keyframe, robot by robot. -/
def localMatches (p : LoopClosureParams) (s : LoopClosureSparseMatching M) (embedding : D)
    (keyframeId : ℕ) : List EdgeInterRobot :=
  (List.range p.maxNbRobots).filterMap (localMatch p s embedding keyframeId)

theorem foldlM_localStep {l : List ℕ}
    {acc acc' : AlgebraicConnectivityMaximization × List EdgeInterRobot}
    (h : l.foldlM (localStep p s embedding keyframeId) acc = some acc') :
    acc' = ((l.filterMap (localMatch p s embedding keyframeId)).foldl
        AlgebraicConnectivityMaximization.addMatch acc.1,
      acc.2 ++ l.filterMap (localMatch p s embedding keyframeId)) := by
  induction l generalizing acc with
  | nil =>
    obtain rfl : acc = acc' := Option.some.inj h
    simp
  | cons i l ih =>
    rw [List.foldlM_cons, Option.bind_eq_bind] at h
    obtain ⟨acc₁, hstep, hrest⟩ := Option.bind_eq_some_iff.mp h
    rw [ih hrest]
    unfold localStep at hstep
    cases hm : localMatch p s embedding keyframeId i with
    | none =>
      rw [hm] at hstep
      obtain rfl : acc = acc₁ := Option.some.inj hstep
      rw [List.filterMap_cons_none hm]
    | some m =>
      rw [hm] at hstep
      obtain ⟨selector, hselector, rfl⟩ := Option.map_eq_some_iff.mp hstep
      obtain rfl := AlgebraicConnectivityMaximization.addMatch_of_tryAddMatch hselector
      simp [List.filterMap_cons_some hm]

/-- What `add_local_global_descriptor` leaves: it has looked the descriptor up for every other robot
and offered the matches to the selector. -/
def addedLocal (p : LoopClosureParams) (s : LoopClosureSparseMatching M) (embedding : D)
    (keyframeId : ℕ) : LoopClosureSparseMatching M :=
  { s with
    localNnsm := M.addItem s.localNnsm embedding keyframeId
    candidateSelector := (localMatches p s embedding keyframeId).foldl
      AlgebraicConnectivityMaximization.addMatch s.candidateSelector }

/-- **What `add_local_global_descriptor` does** if it does not raise. -/
theorem addLocalGlobalDescriptor_eq_some {r : LoopClosureSparseMatching M × List EdgeInterRobot}
    (h : addLocalGlobalDescriptor p s embedding keyframeId = some r) :
    r = (addedLocal p s embedding keyframeId, localMatches p s embedding keyframeId) := by
  obtain ⟨acc, hacc, rfl⟩ := Option.map_eq_some_iff.mp h
  rw [foldlM_localStep hacc]
  rfl

/-- It does not raise if the selector knows the robots of the matches. -/
theorem addLocalGlobalDescriptor_of_knows
    (h : ∀ m ∈ localMatches p s embedding keyframeId, s.candidateSelector.Knows m) :
    addLocalGlobalDescriptor p s embedding keyframeId =
      some (addedLocal p s embedding keyframeId, localMatches p s embedding keyframeId) := by
  have hturn : ∀ i ∈ List.range p.maxNbRobots,
      ∀ acc : AlgebraicConnectivityMaximization × List EdgeInterRobot,
        (∀ m ∈ localMatches p s embedding keyframeId, acc.1.Knows m) →
        ∃ acc', localStep p s embedding keyframeId acc i = some acc' ∧
          ∀ m ∈ localMatches p s embedding keyframeId, acc'.1.Knows m := by
    intro i hi acc hknows
    unfold localStep
    cases hm : localMatch p s embedding keyframeId i with
    | none => exact ⟨acc, rfl, hknows⟩
    | some m =>
      have hmem : m ∈ localMatches p s embedding keyframeId := List.mem_filterMap.mpr ⟨i, hi, hm⟩
      dsimp only
      rw [AlgebraicConnectivityMaximization.tryAddMatch_of_knows (hknows m hmem)]
      exact ⟨_, rfl, fun m' hm' => (hknows m' hm').addMatch m⟩
  obtain ⟨acc, hacc, -⟩ := Walk.exists_foldlM
    (fun acc : AlgebraicConnectivityMaximization × List EdgeInterRobot =>
      ∀ m ∈ localMatches p s embedding keyframeId, acc.1.Knows m)
    hturn (b := (s.candidateSelector, [])) h
  have hadd : addLocalGlobalDescriptor p s embedding keyframeId = _ :=
    congrArg (Option.map _) hacc
  rw [hadd]
  exact congrArg some (addLocalGlobalDescriptor_eq_some hadd)

/-- What `add_other_robot_global_descriptor` leaves, with the match it has found. -/
def addedOther (s : LoopClosureSparseMatching M) (msg : GlobalDescriptor D)
    (m : Option EdgeInterRobot) : LoopClosureSparseMatching M :=
  { s with
    otherRobotsNnsm := Function.update s.otherRobotsNnsm msg.robotId
      (M.addItem (s.otherRobotsNnsm msg.robotId) msg.descriptor msg.keyframeId)
    candidateSelector := m.toList.foldl AlgebraicConnectivityMaximization.addMatch s.candidateSelector }

/-- The match of a keyframe of another robot. -/
def otherMatch (p : LoopClosureParams) (s : LoopClosureSparseMatching M) (msg : GlobalDescriptor D) :
    Option EdgeInterRobot :=
  bestMatch p s.localNnsm msg.descriptor fun kf similarity =>
    ⟨p.robotId, kf, msg.robotId, msg.keyframeId, similarity⟩

/-- **What `add_other_robot_global_descriptor` does** if it does not raise. -/
theorem addOtherRobotGlobalDescriptor_eq_some {msg : GlobalDescriptor D}
    {r : LoopClosureSparseMatching M × Option EdgeInterRobot}
    (h : addOtherRobotGlobalDescriptor p s msg = some r) :
    r = (addedOther s msg (otherMatch p s msg), otherMatch p s msg) := by
  obtain ⟨-, h⟩ := Option.ite_none_right_eq_some.mp h
  dsimp only at h
  cases hm : otherMatch p s msg with
  | none =>
    have hbest : bestMatch p s.localNnsm msg.descriptor _ = none := hm
    rw [hbest] at h
    exact (Option.some.inj h).symm
  | some m =>
    have hbest : bestMatch p s.localNnsm msg.descriptor _ = some m := hm
    rw [hbest] at h
    obtain ⟨selector, hselector, rfl⟩ := Option.map_eq_some_iff.mp h
    obtain rfl := AlgebraicConnectivityMaximization.addMatch_of_tryAddMatch hselector
    rfl

/-- It does not raise for another robot's id if the selector knows the robots of the match. -/
theorem addOtherRobotGlobalDescriptor_of_knows {msg : GlobalDescriptor D}
    (hlt : msg.robotId < p.maxNbRobots) (hne : msg.robotId ≠ p.robotId)
    (h : ∀ m ∈ otherMatch p s msg, s.candidateSelector.Knows m) :
    addOtherRobotGlobalDescriptor p s msg =
      some (addedOther s msg (otherMatch p s msg), otherMatch p s msg) := by
  unfold addOtherRobotGlobalDescriptor
  rw [if_pos ⟨hlt, hne⟩]
  dsimp only
  cases hm : otherMatch p s msg with
  | none =>
    have hbest : bestMatch p s.localNnsm msg.descriptor _ = none := hm
    rw [hbest]
    rfl
  | some m =>
    have hbest : bestMatch p s.localNnsm msg.descriptor _ = some m := hm
    rw [hbest]
    dsimp only
    rw [AlgebraicConnectivityMaximization.tryAddMatch_of_knows (h m hm)]
    rfl

theorem bestMatch_eq_some {store : M.Store} {query : D} {edge : ℕ → ℚ → EdgeInterRobot}
    {m : EdgeInterRobot} : bestMatch p store query edge = some m ↔
      ∃ kf similarity, M.searchBest store query = some (kf, similarity) ∧
        p.similarityThreshold ≤ similarity ∧ edge kf similarity = m := by
  unfold bestMatch
  constructor
  · intro h
    cases hbest : M.searchBest store query with
    | none => simp [hbest] at h
    | some x =>
      rw [hbest] at h
      obtain ⟨hle, heq⟩ := Option.ite_none_right_eq_some.mp h
      exact ⟨x.1, x.2, rfl, hle, Option.some.inj heq⟩
  · rintro ⟨kf, similarity, hbest, hle, rfl⟩
    rw [hbest]
    exact if_pos hle

/-- What is matched was stored, with the similarity of the two descriptors. -/
theorem bestMatch_stored {es : List (D × ℕ)} {query : D} {edge : ℕ → ℚ → EdgeInterRobot}
    {m : EdgeInterRobot} (h : bestMatch p (M.stored es) query edge = some m) :
    ∃ e ∈ es, p.similarityThreshold ≤ M.worth query e ∧ m = edge e.2 (M.worth query e) := by
  obtain ⟨kf, similarity, hbest, hle, rfl⟩ := bestMatch_eq_some.mp h
  obtain ⟨e, he, heq⟩ := M.searchBest_mem es query (kf, similarity) hbest
  obtain ⟨rfl, rfl⟩ := Prod.mk.inj heq
  exact ⟨e, he, hle, rfl⟩

end Calls

/-! ### Loop closures of the robot with itself -/

section Local

variable {p} {s : LoopClosureSparseMatching M}

theorem farEnough_self (hpos : 0 < p.intraLoopMinInbetweenKeyframes) (kfId : ℕ) :
    farEnough p kfId kfId = false := by
  simp [farEnough, hpos]

/-- An entry that may be returned for a keyframe. -/
def allowed (p : LoopClosureParams) (M : Matcher D) (descriptor : D) (kfId : ℕ) (e : D × ℕ) :
    Bool :=
  farEnough p kfId e.2 && decide (p.similarityThreshold ≤ M.worth descriptor e)

theorem firstAllowed_map (best : List (D × ℕ)) (descriptor : D) (kfId : ℕ) :
    (firstAllowed p kfId (best.map fun e => some (e.2, M.worth descriptor e))).map Prod.fst =
      (best.find? (allowed p M descriptor kfId)).map Prod.snd := by
  unfold firstAllowed
  cases best with
  | nil => rfl
  | cons b rest =>
    have hvalues : ((b :: rest).map fun e => some (e.2, M.worth descriptor e)).filterMap id =
        (b :: rest).map fun e => (e.2, M.worth descriptor e) := by
      rw [List.filterMap_map]
      exact congrFun List.filterMap_eq_map' (b :: rest)
    have hpred : ((fun x : ℕ × ℚ => farEnough p kfId x.1 && !decide (x.2 < p.similarityThreshold)) ∘
        fun e => (e.2, M.worth descriptor e)) = allowed p M descriptor kfId := by
      funext e
      simp [allowed, ← not_lt]
    rw [if_neg (by simp), hvalues, List.find?_map, hpred, Option.map_map, Option.map_map]
    rfl

/-- Whether the keyframe itself heads the list does not matter: it is not far enough. -/
theorem matchLocalLoopClosures_fst (hM : M.Exact) (hpos : 0 < p.intraLoopMinInbetweenKeyframes)
    {es : List (D × ℕ)} (hlocal : s.localNnsm = M.stored es) (descriptor : D) (kfId : ℕ) :
    ∃ best, IsBest (M.worth descriptor) p.nbBestMatches es best ∧
      (matchLocalLoopClosures p s descriptor kfId).map Prod.fst =
        (best.find? (allowed p M descriptor kfId)).map Prod.snd := by
  obtain ⟨best, hbest, hsearch⟩ := hM.search es descriptor p.nbBestMatches
  refine ⟨best, hbest, ?_⟩
  unfold matchLocalLoopClosures
  rw [hlocal, hsearch]
  dsimp only
  split_ifs with hhead
  · cases best with
    | nil => exact absurd hhead (by simp)
    | cons b rest =>
      have hself : b.2 = kfId := by simpa using hhead
      have hnot : allowed p M descriptor kfId b = false := by
        rw [allowed, hself, farEnough_self hpos, Bool.false_and]
      rw [List.map_cons, List.tail_cons, firstAllowed_map, List.find?_cons_of_neg (by simp [hnot])]
  · exact firstAllowed_map best descriptor kfId

/-- **Local loop closures**, with a structure that looks at every entry: a keyframe that is returned
is the most similar of all that are far enough, and similar enough.  If none is returned although
more matches are asked for than there are keyframes too near, then no keyframe is both. -/
theorem matchLocalLoopClosures_spec (hM : M.Exact) (hpos : 0 < p.intraLoopMinInbetweenKeyframes)
    (es : List (D × ℕ)) (hlocal : s.localNnsm = M.stored es) (descriptor : D) (kfId : ℕ) :
    (∀ kf, (matchLocalLoopClosures p s descriptor kfId).map Prod.fst = some kf →
      ∃ e ∈ es, e.2 = kf ∧ farEnough p kfId kf = true ∧
        p.similarityThreshold ≤ M.worth descriptor e ∧
        ∀ e' ∈ es, farEnough p kfId e'.2 = true → M.worth descriptor e' ≤ M.worth descriptor e) ∧
    ((matchLocalLoopClosures p s descriptor kfId).map Prod.fst = none →
      (es.countP fun e => !farEnough p kfId e.2) < p.nbBestMatches →
        ∀ e ∈ es, farEnough p kfId e.2 = true → M.worth descriptor e < p.similarityThreshold) := by
  obtain ⟨best, hbest, hfst⟩ := matchLocalLoopClosures_fst hM hpos hlocal descriptor kfId
  rw [hfst]
  constructor
  · intro kf hkf
    obtain ⟨e, hfind, rfl⟩ := Option.map_eq_some_iff.mp hkf
    obtain ⟨he, hfar, hle, hmax⟩ := hbest.find?_eq_some hfind
    exact ⟨e, he, rfl, hfar, hle, hmax⟩
  · intro hnone hfew e he hfar
    exact hbest.find?_eq_none hfew (Option.map_eq_none_iff.mp hnone) he hfar

/-- Vectors of length 2, compared exactly. -/
def plane : Matcher (NearestNeighborsMatching.Vec 2) :=
  NearestNeighborsMatching.matcher id NearestNeighborsMatching.integerCosine Argsort.insertion 2

theorem plane_exact : plane.Exact := NearestNeighborsMatching.matcher_exact _ _ _ 2

/-- Robot 0 of two; three matches are asked for, and two keyframes are too near. -/
def two : LoopClosureParams where
  robotId := 0
  maxNbRobots := 2
  similarityThreshold := 9 / 10
  nbBestMatches := 3
  intraLoopMinInbetweenKeyframes := 3

/-- Keyframes 3 and 4 are too near to keyframe 5, and as similar to it as keyframe 1. -/
def corridor : List (NearestNeighborsMatching.Vec 2 × ℕ) :=
  [(⟨[3, 4], rfl⟩, 1), (⟨[1, 0], rfl⟩, 2), (⟨[8, 6], rfl⟩, 3), (⟨[4, 3], rfl⟩, 4)]

/-- A selector without edges. -/
def noEdges : AlgebraicConnectivityMaximization where
  robotId := 0
  maxNbRobots := 2
  maxIters := 10
  fixedWeight := 1
  enableSparsification := true
  enableSparsificationComparison := false

/-- A robot that holds the corridor. -/
def inCorridor : LoopClosureSparseMatching plane where
  localNnsm := plane.stored corridor
  candidateSelector := noEdges

/-- Keyframe 1 it is. -/
theorem matchLocalLoopClosures_spec_corridor :
    ∃ e ∈ corridor, e.2 = 1 ∧ farEnough two 5 1 = true ∧
      two.similarityThreshold ≤ plane.worth ⟨[4, 3], rfl⟩ e ∧
      ∀ e' ∈ corridor, farEnough two 5 e'.2 = true →
        plane.worth ⟨[4, 3], rfl⟩ e' ≤ plane.worth ⟨[4, 3], rfl⟩ e := by
  have hlocal : inCorridor.localNnsm = plane.stored corridor := by simp only [inCorridor]
  have hfst : (matchLocalLoopClosures two inCorridor ⟨[4, 3], rfl⟩ 5).map Prod.fst = some 1 := by
    decide +kernel
  exact (matchLocalLoopClosures_spec plane_exact (by decide) corridor hlocal _ _).1 1 hfst

end Local

/-! ### Runs -/

/-- What arrives at a robot: a keyframe of its own, or a descriptor of another robot. -/
inductive Arrival (D : Type*)
  | addLocal (embedding : D) (keyframeId : ℕ)
  | addOther (msg : GlobalDescriptor D)

/-- The descriptors that arrive in any order; the output is the matches of a call, and a call that
raises ends the run. -/
def sparseMatching (M : Matcher D) (p : LoopClosureParams)
    (selector : AlgebraicConnectivityMaximization) :
    Machine (LoopClosureSparseMatching M) (Arrival D) (List EdgeInterRobot) where
  init := { candidateSelector := selector }
  step s
    | .addLocal embedding keyframeId => addLocalGlobalDescriptor p s embedding keyframeId
    | .addOther msg => (addOtherRobotGlobalDescriptor p s msg).map fun r => (r.1, r.2.toList)

/-- The local keyframes that arrived. -/
def locals (es : List (Arrival D)) : List (D × ℕ) :=
  es.filterMap fun
    | .addLocal embedding keyframeId => some (embedding, keyframeId)
    | .addOther _ => none

/-- The keyframes of robot `i` that arrived. -/
def others (i : ℕ) (es : List (Arrival D)) : List (D × ℕ) :=
  es.filterMap fun
    | .addLocal _ _ => none
    | .addOther msg => if msg.robotId = i then some (msg.descriptor, msg.keyframeId) else none

section Runs

variable {p} {selector : AlgebraicConnectivityMaximization} {s s' : LoopClosureSparseMatching M}
  {tr : List (Arrival D × List EdgeInterRobot)}

theorem sparseMatching_step_addLocal {embedding : D} {keyframeId : ℕ} {o : List EdgeInterRobot}
    (h : (sparseMatching M p selector).step s (.addLocal embedding keyframeId) = some (s', o)) :
    addedLocal p s embedding keyframeId = s' ∧ localMatches p s embedding keyframeId = o :=
  Prod.mk.inj (addLocalGlobalDescriptor_eq_some h).symm

theorem sparseMatching_step_addOther {msg : GlobalDescriptor D} {o : List EdgeInterRobot}
    (h : (sparseMatching M p selector).step s (.addOther msg) = some (s', o)) :
    addedOther s msg (otherMatch p s msg) = s' ∧ (otherMatch p s msg).toList = o := by
  obtain ⟨r, hr, heq⟩ := Option.map_eq_some_iff.mp h
  rw [addOtherRobotGlobalDescriptor_eq_some hr] at heq
  exact Prod.mk.inj heq

/-- What arrived in a run. -/
def arrivals (tr : List (Arrival D × List EdgeInterRobot)) : List (Arrival D) := tr.map Prod.fst

theorem locals_concat (es : List (Arrival D)) (e : Arrival D) :
    locals (es ++ [e]) = locals es ++ locals [e] := List.filterMap_append

theorem others_concat (i : ℕ) (es : List (Arrival D)) (e : Arrival D) :
    others i (es ++ [e]) = others i es ++ others i [e] := List.filterMap_append

/-- The structures hold what arrived. -/
structure Holds (es : List (Arrival D)) (s : LoopClosureSparseMatching M) : Prop where
  locals : s.localNnsm = M.stored (locals es)
  others : ∀ i, s.otherRobotsNnsm i = M.stored (others i es)

/-- **Step lemma.** -/
theorem Holds.step {es : List (Arrival D)} (h : Holds es s) {e : Arrival D}
    {o : List EdgeInterRobot} (hs : (sparseMatching M p selector).step s e = some (s', o)) :
    Holds (es ++ [e]) s' := by
  cases e with
  | addLocal embedding keyframeId =>
    obtain ⟨rfl, -⟩ := sparseMatching_step_addLocal hs
    constructor
    · show M.addItem _ embedding keyframeId = _
      rw [h.locals, locals_concat]
      exact (M.stored_concat (LoopClosureSparseMatching.locals es) (embedding, keyframeId)).symm
    · intro i
      rw [others_concat]
      show _ = M.stored (LoopClosureSparseMatching.others i es ++ [])
      rw [List.append_nil]
      exact h.others i
  | addOther msg =>
    obtain ⟨rfl, -⟩ := sparseMatching_step_addOther hs
    constructor
    · rw [locals_concat]
      show _ = M.stored (LoopClosureSparseMatching.locals es ++ [])
      rw [List.append_nil]
      exact h.locals
    · intro i
      show Function.update s.otherRobotsNnsm msg.robotId _ i = _
      rw [others_concat]
      by_cases hi : i = msg.robotId
      · subst hi
        have hnew : LoopClosureSparseMatching.others msg.robotId [Arrival.addOther msg] =
            [(msg.descriptor, msg.keyframeId)] := by simp [LoopClosureSparseMatching.others]
        rw [Function.update_self, h.others, hnew, M.stored_concat]
      · have hnew : LoopClosureSparseMatching.others i [Arrival.addOther msg] = [] := by
          simp [LoopClosureSparseMatching.others, Ne.symm hi]
        rw [Function.update_of_ne hi, h.others, hnew, List.append_nil]

/-- The match is one between a local keyframe and one of another robot that both arrived, and is as
similar as the two are, which is similar enough. -/
structure Justified (M : Matcher D) (p : LoopClosureParams) (es : List (Arrival D))
    (m : EdgeInterRobot) : Prop where
  robot0Id : m.robot0Id = p.robotId
  similar : p.similarityThreshold ≤ m.weight
  pair : ∃ e ∈ locals es, ∃ e' ∈ others m.robot1Id es, e.2 = m.robot0KeyframeId ∧
    e'.2 = m.robot1KeyframeId ∧
    (m.weight = M.similarity e.1 e'.1 ∨ m.weight = M.similarity e'.1 e.1)

theorem Justified.concat {es : List (Arrival D)} {m : EdgeInterRobot} (h : Justified M p es m)
    (e : Arrival D) : Justified M p (es ++ [e]) m := by
  obtain ⟨l, hl, o, ho, hpair⟩ := h.pair
  refine ⟨h.robot0Id, h.similar, l, ?_, o, ?_, hpair⟩
  · rw [locals_concat]
    exact List.mem_append_left _ hl
  · rw [others_concat]
    exact List.mem_append_left _ ho

/-- A match of the one keyframe with robot `i` that is as good as the other keyframe, or a match of
the other keyframe that is as good as the one. -/
def Covered (M : Matcher D) (ms : List EdgeInterRobot) (i : ℕ) (e e' : D × ℕ) : Prop :=
  ∃ m ∈ ms, m.robot1Id = i ∧
    (m.robot0KeyframeId = e.2 ∧ M.similarity e.1 e'.1 ≤ m.weight ∨
      m.robot1KeyframeId = e'.2 ∧ M.similarity e'.1 e.1 ≤ m.weight)

theorem Covered.mono {ms ms' : List EdgeInterRobot} {i : ℕ} {e e' : D × ℕ}
    (h : Covered M ms i e e') (hsub : ms ⊆ ms') : Covered M ms' i e e' := by
  obtain ⟨m, hm, hrest⟩ := h
  exact ⟨m, hsub hm, hrest⟩

end Runs

end LoopClosureSparseMatching

end RoverSwarm
