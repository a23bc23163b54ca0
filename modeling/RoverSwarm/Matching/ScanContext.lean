import RoverSwarm.Matching.Sparse
import RoverSwarm.ScanContext

/-!
# Matching.ScanContext — scan contexts as a matcher

With a lidar `LoopClosureSparseMatching` holds the scan contexts of the keyframes.  A similarity is
a double; `toDouble` is the one that comes out for a real number.  Only the entries with the nearest
ring keys are compared with a query, so this matcher is not exact.
-/

namespace RoverSwarm.ScanContext.ScanContextMatching

variable {rings sectors : ℕ} [NeZero sectors] {ι : Type*}

/-- `search_best`; `none` if an item is missing. -/
noncomputable def searchBest (tree : KDTree rings) (s : ScanContextMatching rings sectors ι)
    (query : Descriptor rings sectors) : Option (Option ι × Option ℝ) :=
  if s.nbItems < 1 then some (none, none)
  else
    (s.search tree query 1).bind fun (idxs, sims) =>
      idxs.head?.bind fun idx => sims.head?.map fun sim => (idx, sim)

section Matcher

variable (toDouble : ℝ → ℚ) (tree : KDTree rings)

/-- An item with its similarity, unless they are `None`. -/
def found (x : Option ℕ × Option ℝ) : Option (ℕ × ℚ) :=
  x.1.bind fun item => x.2.map fun similarity => (item, toDouble similarity)

/-- The two lists of `search` as one. -/
noncomputable def searchFound (s : ScanContextMatching rings sectors ℕ)
    (query : Descriptor rings sectors) (k : ℕ) : List (Option (ℕ × ℚ)) :=
  match s.search tree query k with
  | some (items, similarities) => (items.zip similarities).map (found toDouble)
  | none => []

/-- At least one keyframe is asked for, whatever `k` is. -/
theorem search_max (s : ScanContextMatching rings sectors ι) (query : Descriptor rings sectors)
    (k : ℤ) : s.search tree query k = s.search tree query (max k 1) := by
  unfold search
  rw [max_assoc, max_self]

theorem search_empty (query : Descriptor rings sectors) (k : ℤ) :
    (added 10 [] : ScanContextMatching rings sectors ι).search tree query k =
      some ([none], [none]) :=
  if_pos Nat.zero_lt_one

/-- What is found are entries, with their similarities. -/
theorem exists_entries {es : List (Descriptor rings sectors × ℕ)} (hne : es ≠ [])
    (query : Descriptor rings sectors) (k : ℤ) :
    ∃ entries : List (Descriptor rings sectors × ℕ), (∀ e ∈ entries, e ∈ es) ∧
      (added 10 es).search tree query k =
        some (entries.map fun e => some e.2, entries.map fun e => some (similarity query e)) := by
  have hcandidates := added_numCandidates 10 es
  obtain ⟨best, -, hlt, -, -, hsearch⟩ := (stores_added 10 es).search_eq hne
    (by rw [hcandidates]; decide) tree query (le_max_right k 1)
  refine ⟨best.map (entryAt es hne), fun e he => ?_, ?_⟩
  · obtain ⟨i, hi, rfl⟩ := List.mem_map.mp he
    exact List.mem_of_getElem? (getElem?_eq_entryAt hne (hlt i hi))
  · rw [search_max, hsearch, List.map_map, List.map_map]
    rfl

theorem searchFound_added (es : List (Descriptor rings sectors × ℕ))
    (query : Descriptor rings sectors) (k : ℕ) {x : ℕ × ℚ}
    (hx : some x ∈ searchFound toDouble tree (added 10 es) query k) :
    ∃ e ∈ es, x = (e.2, toDouble (similarity query e)) := by
  by_cases hes : es = []
  · subst hes
    unfold searchFound at hx
    rw [search_empty] at hx
    exact absurd (List.mem_singleton.mp hx) (Option.some_ne_none x)
  · obtain ⟨entries, hmem, hsearch⟩ := exists_entries tree hes query k
    unfold searchFound at hx
    rw [hsearch] at hx
    dsimp only at hx
    rw [List.zip_map', List.map_map] at hx
    obtain ⟨e, he, heq⟩ := List.mem_map.mp hx
    exact ⟨e, hmem e he, (Option.some.inj heq).symm⟩

theorem searchBest_added (es : List (Descriptor rings sectors × ℕ))
    (query : Descriptor rings sectors) {x : ℕ × ℚ}
    (hx : ((added 10 es).searchBest tree query).bind (found toDouble) = some x) :
    ∃ e ∈ es, x = (e.2, toDouble (similarity query e)) := by
  by_cases hes : es = []
  · subst hes
    exact absurd hx.symm (Option.some_ne_none x)
  · obtain ⟨entries, hmem, hsearch⟩ := exists_entries tree hes query 1
    unfold searchBest at hx
    rw [if_neg (by rw [(stores_added 10 es).nbItems]; have := List.length_pos_iff.mpr hes; omega),
      hsearch] at hx
    cases entries with
    | nil => cases hx
    | cons e entries => exact ⟨e, hmem e List.mem_cons_self, (Option.some.inj hx).symm⟩

/-- Scan contexts of one shape. -/
noncomputable def matcher : Matcher (Descriptor rings sectors) where
  Store := ScanContextMatching rings sectors ℕ
  empty := {}
  addItem := addItem
  search := searchFound toDouble tree
  searchBest s query := (s.searchBest tree query).bind (found toDouble)
  similarity query d := toDouble (1 - (distanceSc (reshape d) (reshape query)).1)
  search_mem es query k _ hx := searchFound_added toDouble tree es query k hx
  searchBest_mem es query _ hx := searchBest_added toDouble tree es query hx

end Matcher

end RoverSwarm.ScanContext.ScanContextMatching
