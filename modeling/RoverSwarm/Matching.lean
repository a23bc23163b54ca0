import Mathlib.Algebra.Field.Rat
import Mathlib.Algebra.Order.Ring.Unbundled.Rat
import Mathlib.Data.List.GetD
import RoverSwarm.Lib.Dict
import RoverSwarm.Lib.Ranking
import RoverSwarm.Lib.Walk

/-!
# Matching — nearest neighbors among global descriptors

`NearestNeighborsMatching` keeps the vectors in an array that doubles when it is full, and answers
a query with the items whose vectors are most similar to it.  Its first vector fixes the length of
the rows; numpy refuses a vector of another length, unless it is of length one and fills the row.
The rounding of an array of `float32`, the cosine distance of `scipy` and `np.argsort` are
parameters.  The cosine distance raises for vectors of different lengths; of a vector of zeros it is
`nan`, which `np.argsort` puts behind every number: `K` are the similarities in this order.
-/

namespace RoverSwarm

open Ranking

structure NearestNeighborsMatching (ι : Type*) where
  n : ℕ := 0
  dim : Option ℕ := none
  items : Dict ℕ ι := ∅
  data : List (List ℚ) := []

namespace NearestNeighborsMatching

variable {ι : Type*}

def zeros (rows dim : ℕ) : List (List ℚ) := List.replicate rows (List.replicate dim 0)

/-- `__init__`. -/
def init (dim : Option ℕ) : NearestNeighborsMatching ι where
  dim := dim
  data := match dim with
    | some dim => zeros 1000 dim
    | none => []

/-- The growth of the array for a vector of length `len`. -/
def makeRoom (s : NearestNeighborsMatching ι) (len : ℕ) : NearestNeighborsMatching ι :=
  if s.n ≥ s.data.length then
    match s.dim with
    | none => { s with dim := some len, data := zeros 1000 len }
    | some dim => { s with data := s.data ++ zeros s.data.length dim }
  else s

/-- What numpy assigns to a row of length `dim`; `none` if it raises. -/
def broadcast (dim : ℕ) (vector : List ℚ) : Option (List ℚ) :=
  if vector.length = dim then some vector
  else
    match vector with
    | [x] => some (List.replicate dim x)
    | _ => none

section Class

variable {K : Type*} [LinearOrder K] [One K] [Sub K] (toFloat32 : ℚ → ℚ)
  (cosine : List ℚ → List ℚ → Option K) (argsort : Argsort K)

/-- `add_item`; `none` if it raises. -/
def addItem (s : NearestNeighborsMatching ι) (vector : List ℚ) (item : ι) :
    Option (NearestNeighborsMatching ι) :=
  let s := s.makeRoom vector.length
  (broadcast (s.data.getD s.n []).length vector).map fun row =>
    { s with
      items := s.items.set s.n item
      data := s.data.set s.n (row.map toFloat32)
      n := s.n + 1 }

/-- The entry of `similarities` for a row. -/
def rowSimilarity (query row : List ℚ) : Option K := (cosine query row).map fun c => 1 - c

/-- `search`, `none` if it raises; every position up to `n` has an item. -/
def search (s : NearestNeighborsMatching ι) (query : List ℚ) (k : ℕ) : Option (List ι × List K) :=
  if s.data.length = 0 then some ([], [])
  else
    ((List.range s.n).mapM fun i => rowSimilarity cosine query (s.data.getD i [])).map
      fun similarities =>
        let ns := argsort.greatest similarities k
        (ns.filterMap fun n => s.items.get? n, ns.filterMap fun n => similarities[n]?)

/-- `search_best`: `some none` stands for `None, None`, and `none` for an error. -/
def searchBest (s : NearestNeighborsMatching ι) (query : List ℚ) : Option (Option (ι × K)) :=
  if s.data.length = 0 then some none
  else
    (s.search cosine argsort query 1).bind fun
      | (item :: _, similarity :: _) => some (some (item, similarity))
      | _ => none

/-- The matching that items were added to; `none` if `add_item` raised. -/
def added (dim : Option ℕ) (es : List (List ℚ × ι)) : Option (NearestNeighborsMatching ι) :=
  es.foldlM (fun s e => s.addItem toFloat32 e.1 e.2) (init dim)

end Class

/-! ### What is stored -/

section Stored

variable {toFloat32 : ℚ → ℚ} {s : NearestNeighborsMatching ι} {d : ℕ} {es : List (List ℚ × ι)}

/-- The row that stands for a vector among rows of length `d`. -/
def row (toFloat32 : ℚ → ℚ) (d : ℕ) (vector : List ℚ) : List ℚ :=
  ((broadcast d vector).getD []).map toFloat32

/-- A vector that fits into rows of length `d`. -/
def Fits (d : ℕ) (vector : List ℚ) : Prop := vector.length = d ∨ vector.length = 1

instance (d : ℕ) (vector : List ℚ) : Decidable (Fits d vector) := inferInstanceAs (Decidable (_ ∨ _))

theorem broadcast_of_fits {vector : List ℚ} (h : Fits d vector) :
    ∃ r, broadcast d vector = some r ∧ r.length = d := by
  unfold broadcast
  by_cases hlen : vector.length = d
  · exact ⟨vector, if_pos hlen, hlen⟩
  · obtain ⟨x, rfl⟩ := List.length_eq_one_iff.mp (h.resolve_left hlen)
    refine ⟨List.replicate d x, ?_, List.length_replicate⟩
    rw [if_neg hlen]

theorem broadcast_eq_none {vector : List ℚ} (h : ¬ Fits d vector) : broadcast d vector = none := by
  obtain ⟨hlen, hone⟩ := not_or.mp h
  unfold broadcast
  rw [if_neg hlen]
  match vector, hone with
  | [], _ => rfl
  | [x], hone => exact absurd rfl hone
  | _ :: _ :: _, _ => rfl

/-- The matching holds the entries `es` in rows of length `d`. -/
structure Stores (toFloat32 : ℚ → ℚ) (d : ℕ) (s : NearestNeighborsMatching ι)
    (es : List (List ℚ × ι)) : Prop where
  n : s.n = es.length
  dim : s.dim = some d
  capacity : 0 < s.data.length
  room : s.n ≤ s.data.length
  rows : ∀ r ∈ s.data, r.length = d
  entries : ∀ i e, es[i]? = some e →
    s.data[i]? = some (row toFloat32 d e.1) ∧ s.items.get? i = some e.2

theorem rows_zeros (n : ℕ) : ∀ r ∈ zeros n d, r.length = d := fun r hr => by
  rw [List.eq_of_mem_replicate hr, List.length_replicate]

theorem stores_init (d : ℕ) : Stores toFloat32 d (init (ι := ι) (some d)) [] where
  n := rfl
  dim := rfl
  capacity := by
    show 0 < (zeros 1000 d).length
    rw [zeros, List.length_replicate]
    omega
  room := Nat.zero_le _
  rows := rows_zeros 1000
  entries i e he := by simp at he

/-- Growing keeps the entries and leaves room for one more. -/
theorem Stores.makeRoom (h : Stores toFloat32 d s es) (len : ℕ) :
    Stores toFloat32 d (s.makeRoom len) es ∧ (s.makeRoom len).n < (s.makeRoom len).data.length := by
  have hcapacity := h.capacity
  have hroom := h.room
  unfold NearestNeighborsMatching.makeRoom
  split_ifs with hfull
  · rw [h.dim]
    have hlen : (s.data ++ zeros s.data.length d).length = s.data.length + s.data.length := by
      rw [List.length_append, zeros, List.length_replicate]
    refine ⟨⟨h.n, rfl, ?_, ?_, fun r hr => ?_, fun i e he => ?_⟩, ?_⟩
    · show 0 < (s.data ++ zeros s.data.length d).length
      omega
    · show s.n ≤ (s.data ++ zeros s.data.length d).length
      omega
    · rcases List.mem_append.mp hr with hr | hr
      · exact h.rows r hr
      · exact rows_zeros _ r hr
    · obtain ⟨hdata, hitem⟩ := h.entries i e he
      refine ⟨?_, hitem⟩
      show (s.data ++ zeros s.data.length d)[i]? = _
      rw [List.getElem?_append_left (List.getElem?_eq_some_iff.mp hdata).1, hdata]
    · show s.n < (s.data ++ zeros s.data.length d).length
      omega
  · exact ⟨h, not_le.mp hfull⟩

/-- **Step lemma**: a vector that fits is stored beside those there are. -/
theorem Stores.addItem (h : Stores toFloat32 d s es) {e : List ℚ × ι} (hfits : Fits d e.1) :
    ∃ s', s.addItem toFloat32 e.1 e.2 = some s' ∧ Stores toFloat32 d s' (es ++ [e]) := by
  obtain ⟨hstores, hlt⟩ := h.makeRoom e.1.length
  set t := s.makeRoom e.1.length with ht
  have hold : (t.data.getD t.n []).length = d := by
    rw [List.getD_eq_getElem _ _ hlt]
    exact hstores.rows _ (List.getElem_mem hlt)
  obtain ⟨r, hr, hrlen⟩ := broadcast_of_fits hfits
  have hrow : row toFloat32 d e.1 = r.map toFloat32 := by
    unfold row
    rw [hr, Option.getD_some]
  refine ⟨{ t with
    items := t.items.set t.n e.2
    data := t.data.set t.n (r.map toFloat32)
    n := t.n + 1 }, ?_, ?_, hstores.dim, ?_, ?_, fun r' hr' => ?_, fun i e' he' => ?_⟩
  · unfold NearestNeighborsMatching.addItem
    dsimp only
    rw [← ht, hold, hr, Option.map_some]
  · show t.n + 1 = _
    rw [hstores.n, List.length_append, List.length_singleton]
  · show 0 < (t.data.set _ _).length
    rw [List.length_set]
    exact hstores.capacity
  · show t.n + 1 ≤ (t.data.set _ _).length
    rw [List.length_set]
    exact hlt
  · rcases List.mem_or_eq_of_mem_set hr' with hr' | rfl
    · exact hstores.rows r' hr'
    · rw [List.length_map, hrlen]
  · show (t.data.set _ _)[i]? = _ ∧ (t.items.set _ _).get? i = _
    rw [Dict.get?_set]
    by_cases hi : i = t.n
    · have hlast : (es ++ [e])[i]? = some e := by
        rw [hi, hstores.n, List.getElem?_concat_length]
      obtain rfl : e = e' := Option.some.inj (hlast.symm.trans he')
      rw [hi, List.getElem?_set_self hlt, if_pos rfl, hrow]
      exact ⟨rfl, rfl⟩
    · have hbefore : es[i]? = some e' := by
        have hbound := (List.getElem?_eq_some_iff.mp he').1
        rw [List.length_append, List.length_singleton] at hbound
        have hn := hstores.n
        rwa [List.getElem?_append_left (by omega)] at he'
      rw [List.getElem?_set_ne (Ne.symm hi), if_neg hi]
      exact hstores.entries i e' hbefore

/-- A vector that does not fit raises. -/
theorem Stores.addItem_eq_none (h : Stores toFloat32 d s es) {e : List ℚ × ι}
    (hfits : ¬ Fits d e.1) : s.addItem toFloat32 e.1 e.2 = none := by
  obtain ⟨hstores, hlt⟩ := h.makeRoom e.1.length
  have hold : ((s.makeRoom e.1.length).data.getD (s.makeRoom e.1.length).n []).length = d := by
    rw [List.getD_eq_getElem _ _ hlt]
    exact hstores.rows _ (List.getElem_mem hlt)
  unfold NearestNeighborsMatching.addItem
  dsimp only
  rw [hold, broadcast_eq_none hfits, Option.map_none]

/-- **Run lemma**: vectors that all fit are stored, across every growth of the array. -/
theorem Stores.foldlM_addItem {pre : List (List ℚ × ι)} (h : Stores toFloat32 d s pre)
    (hfits : ∀ e ∈ es, Fits d e.1) :
    ∃ s', es.foldlM (fun s e => s.addItem toFloat32 e.1 e.2) s = some s' ∧
      Stores toFloat32 d s' (pre ++ es) := by
  induction es generalizing s pre with
  | nil =>
    rw [List.append_nil]
    exact ⟨s, rfl, h⟩
  | cons e es ih =>
    obtain ⟨he, hes⟩ := List.forall_mem_cons.mp hfits
    obtain ⟨s', hadd, hstores⟩ := h.addItem he
    obtain ⟨s'', hrest, hstores'⟩ := ih hstores hes
    refine ⟨s'', ?_, ?_⟩
    · rw [List.foldlM_cons, hadd]
      exact hrest
    · rwa [List.append_assoc] at hstores'

/-- One vector that does not fit is enough to raise. -/
theorem Stores.foldlM_addItem_eq_none {pre : List (List ℚ × ι)} (h : Stores toFloat32 d s pre)
    (hfits : ¬ ∀ e ∈ es, Fits d e.1) :
    es.foldlM (fun s e => s.addItem toFloat32 e.1 e.2) s = none := by
  induction es generalizing s pre with
  | nil => exact absurd (fun e he => absurd he List.not_mem_nil) hfits
  | cons e es ih =>
    rw [List.foldlM_cons]
    by_cases he : Fits d e.1
    · obtain ⟨s', hadd, hstores⟩ := h.addItem he
      rw [hadd]
      exact ih hstores fun hes => hfits (List.forall_mem_cons.mpr ⟨he, hes⟩)
    · rw [h.addItem_eq_none he]
      rfl

/-- The first vector makes an array with rows of its length. -/
theorem added_cons (toFloat32 : ℚ → ℚ) (e : List ℚ × ι) (es : List (List ℚ × ι)) :
    added toFloat32 none (e :: es) = added toFloat32 (some e.1.length) (e :: es) := by
  unfold added
  rw [List.foldlM_cons, List.foldlM_cons]
  rfl

end Stored

/-! ### What is found -/

section Found

variable {K : Type*} [One K] [Sub K] {toFloat32 : ℚ → ℚ}
  {cosine : List ℚ → List ℚ → Option K} {s : NearestNeighborsMatching ι} {d : ℕ}
  {es : List (List ℚ × ι)} {query : List ℚ} {worth : List ℚ × ι → K}

/-- The similarity of an entry that is stored in a row of length `d`. -/
def similarity (toFloat32 : ℚ → ℚ) (cosine : List ℚ → List ℚ → Option K) (d : ℕ) (query : List ℚ)
    (e : List ℚ × ι) : Option K := rowSimilarity cosine query (row toFloat32 d e.1)

theorem Stores.similarities (h : Stores toFloat32 d s es) (cosine : List ℚ → List ℚ → Option K)
    (query : List ℚ) :
    ((List.range s.n).mapM fun i => rowSimilarity cosine query (s.data.getD i [])) =
      es.mapM (similarity toFloat32 cosine d query) := by
  have hrows : (List.range s.n).map (fun i => s.data.getD i []) =
      es.map fun e => row toFloat32 d e.1 := by
    rw [h.n]
    refine List.ext_getElem? fun i => ?_
    rw [List.getElem?_map, List.getElem?_map]
    cases he : es[i]? with
    | none =>
      have hlen := List.getElem?_eq_none_iff.mp he
      rw [List.getElem?_eq_none (by rw [List.length_range]; exact hlen)]
      rfl
    | some e =>
      have hlt := (List.getElem?_eq_some_iff.mp he).1
      rw [List.getElem?_range hlt, Option.map_some, Option.map_some, List.getD_eq_getElem?_getD,
        (h.entries i e he).1, Option.getD_some]
  have hmap := congrArg (List.mapM (rowSimilarity cosine query)) hrows
  rwa [List.mapM_map, List.mapM_map] at hmap

variable [LinearOrder K]

/-- **Search on what is stored** returns the most similar entries, the most similar first. -/
theorem Stores.search (h : Stores toFloat32 d s es)
    (hworth : ∀ e ∈ es, similarity toFloat32 cosine d query e = some (worth e))
    (argsort : Argsort K) (k : ℕ) : s.search cosine argsort query k =
      some ((argsort.pick worth es k).map Prod.snd, (argsort.pick worth es k).map worth) := by
  have hcapacity := h.capacity
  unfold NearestNeighborsMatching.search Argsort.pick
  rw [if_neg (by omega), h.similarities, Walk.mapM_eq_some_map hworth, Option.map_some]
  dsimp only
  rw [List.map_filterMap, List.map_filterMap]
  refine congrArg some (Prod.ext (List.filterMap_congr fun i hi => ?_)
    (List.filterMap_congr fun i _ => ?_))
  · have hlt := argsort.lt_of_mem_greatest hi
    rw [List.length_map] at hlt
    have he := List.getElem?_eq_getElem hlt
    rw [he, (h.entries i _ he).2]
    rfl
  · rw [List.getElem?_map]

/-- One row whose cosine raises is enough for a search to raise. -/
theorem Stores.search_eq_none (h : Stores toFloat32 d s es) {e : List ℚ × ι} (he : e ∈ es)
    (hraises : similarity toFloat32 cosine d query e = none) (argsort : Argsort K) (k : ℕ) :
    s.search cosine argsort query k = none := by
  have hcapacity := h.capacity
  unfold NearestNeighborsMatching.search
  rw [if_neg (by omega), h.similarities, Option.map_eq_none_iff]
  refine Option.eq_none_iff_forall_not_mem.mpr fun l hl => ?_
  obtain ⟨_, -, hsome⟩ := Walk.exists_mem_of_mapM hl he
  rw [hraises] at hsome
  exact absurd hsome (by simp)

/-- With an entry there is a best one, and `search_best` returns it. -/
theorem Stores.searchBest (h : Stores toFloat32 d s es) (hne : es ≠ [])
    (hworth : ∀ e ∈ es, similarity toFloat32 cosine d query e = some (worth e))
    (argsort : Argsort K) : ∃ b, argsort.pick worth es 1 = [b] ∧
      s.searchBest cosine argsort query = some (some (b.2, worth b)) := by
  have hbest := argsort.isBest worth es 1
  have hpos := List.length_pos_iff.mpr hne
  have hlen : (argsort.pick worth es 1).length = 1 := by
    rw [hbest.length]
    omega
  obtain ⟨b, hb⟩ := List.length_eq_one_iff.mp hlen
  have hcapacity := h.capacity
  refine ⟨b, hb, ?_⟩
  unfold NearestNeighborsMatching.searchBest
  rw [if_neg (by omega), h.search hworth, hb]
  rfl

theorem Stores.searchBest_eq_none (h : Stores toFloat32 d s es) {e : List ℚ × ι} (he : e ∈ es)
    (hraises : similarity toFloat32 cosine d query e = none) (argsort : Argsort K) :
    s.searchBest cosine argsort query = none := by
  have hcapacity := h.capacity
  unfold NearestNeighborsMatching.searchBest
  rw [if_neg (by omega), h.search_eq_none he hraises, Option.bind_none]

/-- What a query answers with: `search` and `search_best` raise if the cosine of the query and some
row does, and otherwise return the most similar of all entries, the most similar first. -/
def Answers (toFloat32 : ℚ → ℚ) (cosine : List ℚ → List ℚ → Option K) (argsort : Argsort K) (d : ℕ)
    (s : NearestNeighborsMatching ι) (es : List (List ℚ × ι)) (query : List ℚ) : Prop :=
  (∃ e ∈ es, similarity toFloat32 cosine d query e = none) ∧
      (∀ k, s.search cosine argsort query k = none) ∧ s.searchBest cosine argsort query = none ∨
    ∃ worth : List ℚ × ι → K,
      (∀ e ∈ es, similarity toFloat32 cosine d query e = some (worth e)) ∧
      (∀ k, ∃ best, IsBest worth k es best ∧
        s.search cosine argsort query k = some (best.map Prod.snd, best.map worth)) ∧
      ∃ b, IsBest worth 1 es [b] ∧ s.searchBest cosine argsort query = some (some (b.2, worth b))

theorem Stores.answers (h : Stores toFloat32 d s es) (hne : es ≠ [])
    (cosine : List ℚ → List ℚ → Option K) (argsort : Argsort K) (query : List ℚ) :
    Answers toFloat32 cosine argsort d s es query := by
  by_cases hraises : ∃ e ∈ es, similarity toFloat32 cosine d query e = none
  · obtain ⟨e, he, hnone⟩ := hraises
    exact Or.inl ⟨⟨e, he, hnone⟩, h.search_eq_none he hnone argsort,
      h.searchBest_eq_none he hnone argsort⟩
  · have hworth : ∀ e ∈ es, similarity toFloat32 cosine d query e =
        some ((similarity toFloat32 cosine d query e).getD 1) := by
      intro e he
      cases hsim : similarity toFloat32 cosine d query e with
      | none => exact absurd ⟨e, he, hsim⟩ hraises
      | some c => rfl
    obtain ⟨b, hb, hsearch⟩ := h.searchBest hne hworth argsort
    refine Or.inr ⟨_, hworth, fun k => ⟨_, argsort.isBest _ _ k, h.search hworth argsort k⟩, b, ?_,
      hsearch⟩
    rw [← hb]
    exact argsort.isBest _ es 1

/-- **Search over everything added**: `add_item` raises if a vector neither has the length of the
first one nor fills a row, and otherwise every query is answered from all entries, whatever the
array has grown to. -/
theorem search_vectors (toFloat32 : ℚ → ℚ) (cosine : List ℚ → List ℚ → Option K)
    (argsort : Argsort K) (e : List ℚ × ι) (es : List (List ℚ × ι)) :
    ((added toFloat32 none (e :: es)).isSome ↔ ∀ e' ∈ es, Fits e.1.length e'.1) ∧
      ∀ s ∈ added toFloat32 none (e :: es), ∀ query,
        Answers toFloat32 cosine argsort e.1.length s (e :: es) query := by
  rw [added_cons]
  have hinit : Stores toFloat32 e.1.length (init (ι := ι) (some e.1.length)) [] := stores_init _
  have hfirst : Fits e.1.length e.1 := Or.inl rfl
  by_cases hfits : ∀ e' ∈ es, Fits e.1.length e'.1
  · obtain ⟨s, hs, hstores⟩ := hinit.foldlM_addItem (List.forall_mem_cons.mpr ⟨hfirst, hfits⟩)
    have hadded : added toFloat32 (some e.1.length) (e :: es) = some s := hs
    rw [hadded]
    refine ⟨iff_of_true rfl hfits, fun s' hs' query => ?_⟩
    obtain rfl := Option.some.inj hs'
    exact hstores.answers (List.cons_ne_nil e es) cosine argsort query
  · have hnone : added toFloat32 (some e.1.length) (e :: es) = none :=
      hinit.foldlM_addItem_eq_none fun hall => hfits (List.forall_mem_cons.mp hall).2
    rw [hnone]
    exact ⟨iff_of_false (by simp) hfits, fun s hs => absurd hs (by simp)⟩

/-- `scipy.spatial.distance.cosine` of vectors of integers whose lengths are integers. -/
def integerCosine (u v : List ℚ) : ℚ :=
  let dot (u v : List ℚ) : ℚ := (List.zipWith (· * ·) u v).sum
  let norm (v : List ℚ) : ℚ := Nat.sqrt (dot v v).num.toNat
  1 - dot u v / (norm u * norm v)

/-- It raises if the lengths differ. -/
def checkedCosine (u v : List ℚ) : Option ℚ :=
  if u.length = v.length then some (integerCosine u v) else none

def threeVectors : List (List ℚ × ℕ) := [([3, 4], 7), ([1, 0], 8), ([8, 6], 9)]

example : (added id none threeVectors).map
    (fun s => s.search checkedCosine Argsort.insertion [4, 3] 2) =
      some (some ([9, 7], [1, 24 / 25])) := by
  decide +kernel

end Found

end NearestNeighborsMatching

end RoverSwarm
