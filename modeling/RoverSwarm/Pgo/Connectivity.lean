import RoverSwarm.Lib.Search
import RoverSwarm.Pgo.StateMachine

/-!
# Pgo.Connectivity — the breadth first search over the pose graphs

`connected_robot_pose_graph` allocates `visited` with one entry for every current neighbor, and
indexes it by robot ids: its own and those in the connectivity lists it walks.  The search ends
whatever the memory holds; it is a search for the reachable robots as long as their ids are below
the number of neighbors.
-/

namespace RoverSwarm.Pgo

/-! ### The loop as a search -/

/-- The robots in the connectivity list of a robot; there is none for an unknown robot. -/
def listed (connectivity : SortedDict ℕ (List ℕ)) (id : ℕ) : List ℕ :=
  (connectivity.get? id).getD []

/-- A robot reaches itself and the robots listed by those it reaches. -/
abbrev Reachable (connectivity : SortedDict ℕ (List ℕ)) : ℕ → ℕ → Prop :=
  Search.Reach (listed connectivity)

theorem listed_setDefault (connectivity : SortedDict ℕ (List ℕ)) (id : ℕ) :
    listed (connectivity.setDefault id []) = listed connectivity := by
  ext1 id'
  unfold listed
  rw [SortedDict.get?_setDefault]
  split_ifs with h
  · rw [h]
    rfl
  · rfl

/-- The indices at which the loop reads `visited`, in order. -/
def Bfs.indices : ℕ → Bfs → List ℕ
  | 0, _ => []
  | fuel + 1, b =>
    match b.queue with
    | [] => []
    | current :: queue =>
      let connectivity := b.connectivity.setDefault current []
      let ids := (connectivity.get? current).getD []
      ids ++ (ids.foldl Bfs.visit { b with queue, connectivity }).indices fuel

def Bfs.toSearch (b : Bfs) : Search ℕ := ⟨b.queue, b.visited, b.isRobotConnected⟩

theorem Bfs.visit_toSearch (b : Bfs) (id : ℕ) : (b.visit id).toSearch = b.toSearch.visit id := by
  unfold Bfs.visit Search.visit
  cases h : b.visited id with
  | false => simp [Bfs.toSearch, h]
  | true => simp [Bfs.toSearch, h]

theorem Bfs.foldl_visit (ids : List ℕ) (b : Bfs) :
    (ids.foldl Bfs.visit b).toSearch = ids.foldl Search.visit b.toSearch ∧
      (ids.foldl Bfs.visit b).connectivity = b.connectivity := by
  induction ids generalizing b with
  | nil => exact ⟨rfl, rfl⟩
  | cons id ids ih =>
    rw [List.foldl_cons, List.foldl_cons, ← Bfs.visit_toSearch, (ih _).1, (ih _).2]
    refine ⟨rfl, ?_⟩
    unfold Bfs.visit
    dsimp only
    split_ifs
    · rfl
    · rfl

/-- The loop is a search along the connectivity lists. -/
theorem Bfs.run_toSearch (fuel : ℕ) (b : Bfs) :
    (b.run fuel).toSearch = b.toSearch.run (listed b.connectivity) fuel ∧
      b.indices fuel = b.toSearch.looked (listed b.connectivity) fuel := by
  induction fuel generalizing b with
  | zero => exact ⟨rfl, rfl⟩
  | succ fuel ih =>
    obtain ⟨queue, visited, connected, connectivity⟩ := b
    cases queue with
    | nil => exact ⟨rfl, rfl⟩
    | cons current queue =>
      have hids : ((connectivity.setDefault current []).get? current).getD [] =
          listed connectivity current := congrFun (listed_setDefault connectivity current) current
      obtain ⟨hsearch, hconnectivity⟩ := Bfs.foldl_visit (listed connectivity current)
        ⟨queue, visited, connected, connectivity.setDefault current []⟩
      simp only [Bfs.run, Bfs.indices, Bfs.toSearch, Search.run, Search.looked, hids]
      have hlisted : listed ((listed connectivity current).foldl Bfs.visit
          ⟨queue, visited, connected, connectivity.setDefault current []⟩).connectivity =
          listed connectivity := by
        rw [hconnectivity, listed_setDefault]
      have hrest := ih ((listed connectivity current).foldl Bfs.visit
        ⟨queue, visited, connected, connectivity.setDefault current []⟩)
      rw [hlisted, hsearch] at hrest
      exact ⟨hrest.1, congrArg _ hrest.2⟩

variable {P : Type*} (R : Params) (s : State P)

/-! ### The search of a state -/

/-- The connectivity that is searched: what was received, and the robot's own unless it is there. -/
def connectivityLists : SortedDict ℕ (List ℕ) :=
  if s.connectedRobots.size > 0 then
    s.receivedPoseGraphsConnectivity.setDefault R.robotId s.connectedRobots.keys
  else s.receivedPoseGraphsConnectivity

/-- The variables before the loop. -/
def searchStart (beyond : ℕ → Bool) : Bfs where
  queue := [R.robotId]
  visited := Function.update
    (fun i => if i < s.currentNeighborsIds.robots.length then false else beyond i) R.robotId true
  isRobotConnected := fun id => id = R.robotId
  connectivity := connectivityLists R s

/-- The rounds after which `connectedRobotPoseGraph` stops. -/
def searchRounds : ℕ := 1 + ((connectivityLists R s).entries.map fun e => e.2.length).sum

/-- The variables after the loop. -/
def searchEnd (beyond : ℕ → Bool) : Bfs := (searchStart R s beyond).run (searchRounds R s)

theorem connectedRobotPoseGraph_eq (beyond : ℕ → Bool) : connectedRobotPoseGraph R s beyond =
    ({ s with receivedPoseGraphsConnectivity := (searchEnd R s beyond).connectivity },
      (searchEnd R s beyond).isRobotConnected) := rfl

/-- Every index used on `visited`: the robot's own id, and the ids the loop looks up. -/
def visitedIndices (beyond : ℕ → Bool) : List ℕ :=
  R.robotId :: (searchStart R s beyond).indices (searchRounds R s)

/-- The search stays inside `visited`, ends, and finds the reachable robots. -/
structure SearchesReachable (beyond : ℕ → Bool) : Prop where
  inBounds : ∀ i ∈ visitedIndices R s beyond, i < s.currentNeighborsIds.robots.length
  terminates : (searchEnd R s beyond).queue = []
  connected : ∀ id, (connectedRobotPoseGraph R s beyond).2 id = true ↔
    Reachable (connectivityLists R s) R.robotId id

variable {R s}

theorem mem_of_mem_listed {connectivity : SortedDict ℕ (List ℕ)} {id id' : ℕ}
    (h : id' ∈ listed connectivity id) :
    id' ∈ (connectivity.entries.flatMap fun e => e.2).toFinset := by
  unfold listed SortedDict.get? at h
  cases hlookup : connectivity.entries.lookup id with
  | none => simp [hlookup] at h
  | some ids =>
    rw [hlookup] at h
    obtain ⟨before, after, hentries, -⟩ := List.lookup_eq_some_iff.mp hlookup
    have hmem : (id, ids) ∈ connectivity.entries := by
      rw [hentries]
      exact List.mem_append_right _ List.mem_cons_self
    exact List.mem_toFinset.mpr (List.mem_flatMap.mpr ⟨(id, ids), hmem, h⟩)

/-- **The loop ends**, whatever the memory after `visited` holds. -/
theorem searchEnd_queue (beyond : ℕ → Bool) : (searchEnd R s beyond).queue = [] := by
  have hsearch := (Bfs.run_toSearch (searchRounds R s) (searchStart R s beyond)).1
  have hend : ((searchStart R s beyond).toSearch.run (listed (connectivityLists R s))
      (searchRounds R s)).queue = [] := by
    apply Search.run_queue fun _ _ h => mem_of_mem_listed h
    have hcard := List.toFinset_card_le ((connectivityLists R s).entries.flatMap fun e => e.2)
    rw [List.length_flatMap] at hcard
    exact Nat.add_le_add_left ((Finset.card_filter_le _ _).trans hcard) 1
  exact (congrArg Search.queue hsearch).trans hend

/-- Of the ids below the length of `visited` only the robot's own is marked at the start. -/
theorem searchStart_expanding {beyond : ℕ → Bool}
    (h : ∀ id, Reachable (connectivityLists R s) R.robotId id →
      id < s.currentNeighborsIds.robots.length) :
    Search.Expanding (listed (connectivityLists R s)) R.robotId
      (searchStart R s beyond).toSearch where
  origin := decide_eq_true rfl
  sound id hid := by
    obtain rfl := of_decide_eq_true hid
    exact .refl
  queue id hid := decide_eq_true (List.mem_singleton.mp hid)
  marks id hreach hmarked := by
    refine decide_eq_true ?_
    by_contra hne
    have hfalse : (searchStart R s beyond).visited id = false := by
      unfold searchStart
      dsimp only
      rw [Function.update_of_ne hne, if_pos (h id hreach)]
    exact absurd (hfalse.symm.trans hmarked) Bool.false_ne_true
  waiting id hid := .inl (List.mem_singleton.mpr (of_decide_eq_true hid))

/-- An id is connected if `visited` is used at it. -/
theorem connected_iff_mem_indices (beyond : ℕ → Bool) (id : ℕ) :
    (connectedRobotPoseGraph R s beyond).2 id = true ↔ id ∈ visitedIndices R s beyond := by
  obtain ⟨hsearch, hindices⟩ := Bfs.run_toSearch (searchRounds R s) (searchStart R s beyond)
  have hfound : ((searchStart R s beyond).toSearch.run (listed (connectivityLists R s))
      (searchRounds R s)).found id = true ↔ _ := Search.run_found _ _ _
  unfold visitedIndices
  rw [connectedRobotPoseGraph_eq, List.mem_cons, hindices]
  refine Iff.trans ?_ (hfound.trans (or_congr_left decide_eq_true_iff))
  exact Bool.eq_iff_iff.mp (congrFun (congrArg Search.found hsearch) id)

/-- **When the search is one**: exactly if the robot and all robots reachable from it have ids below
the number of current neighbors, whatever the memory after `visited` holds. -/
theorem searchesReachable_iff (R : Params) (s : State P) (beyond : ℕ → Bool) :
    SearchesReachable R s beyond ↔ ∀ id, Reachable (connectivityLists R s) R.robotId id →
      id < s.currentNeighborsIds.robots.length := by
  constructor
  · intro h id hid
    exact h.inBounds id ((connected_iff_mem_indices beyond id).mp ((h.connected id).mpr hid))
  · intro h
    have hsearch := (Bfs.run_toSearch (searchRounds R s) (searchStart R s beyond)).1
    have hconnected : ∀ id, (connectedRobotPoseGraph R s beyond).2 id = true ↔
        Reachable (connectivityLists R s) R.robotId id := by
      intro id
      have hstart : Search.Expanding _ _ (searchStart R s beyond).toSearch :=
        searchStart_expanding h
      have hfound := (hstart.run (searchRounds R s)).found_iff
        ((congrArg Search.queue hsearch).symm.trans (searchEnd_queue beyond)) id
      rw [connectedRobotPoseGraph_eq]
      refine Iff.trans ?_ hfound
      exact Bool.eq_iff_iff.mp (congrFun (congrArg Search.found hsearch) id)
    refine ⟨fun i hi => h i ?_, searchEnd_queue beyond, hconnected⟩
    exact (hconnected i).mp ((connected_iff_mem_indices beyond i).mpr hi)

/-- Robot 1 of two robots, with robot 0 as its only neighbor, has the index 1 in an array of
length 1. -/
theorem not_searchesReachable :
    ¬ ∀ (R : Params) (s : State (Multiplicative ℤ)) (beyond : ℕ → Bool),
      R.robotId < R.maxNbRobots → (∀ id ∈ s.currentNeighborsIds.robots, id < R.maxNbRobots) →
      SearchesReachable R s beyond := by
  intro h
  have hsearch := h { robot0 with robotId := 1 }
    { (pgo (Multiplicative ℤ) robot0).init with
      currentNeighborsIds := ⟨[0], [0]⟩
      connectedRobots := SortedDict.empty.set 0 ()
      receivedPoseGraphsConnectivity := SortedDict.empty.set 0 [1] }
    (fun _ => false) (by decide) (by decide)
  exact absurd (hsearch.inBounds 1 List.mem_cons_self) (by decide)

end RoverSwarm.Pgo
