import Mathlib.Data.List.Nodup
import Mathlib.Data.List.Pairwise
import RoverSwarm.Pc2Utils

/-!
# Pc2Utils.RoundTrip — a cloud that is read holds the points it was created from

`memoryview` takes only items whose subfields follow one another, so those of a message that
`create_cloud` returns are apart, and every value is read where it was written.
-/

namespace RoverSwarm.Pc2Utils

variable {H : Type} {np : Numpy} {bigEndian bigEndian' : Bool} {memory : ℕ → ℕ → UInt8}

/-! ### The items -/

theorem offset_le_of_inOrder {offset : ℕ} {subfields : List Subfield}
    (h : inOrder offset subfields = true) : ∀ s ∈ subfields, offset ≤ s.offset := by
  induction subfields generalizing offset with
  | nil =>
    intro s hs
    exact absurd hs List.not_mem_nil
  | cons s rest ih =>
    rw [inOrder, Bool.and_eq_true, decide_eq_true_eq] at h
    intro t ht
    rcases List.mem_cons.mp ht with rfl | ht
    · exact h.1
    · have hle := ih h.2 t ht
      unfold Layout.Place.stop Subfield.place at hle
      dsimp only at hle
      omega

theorem disjoint_of_inOrder {offset : ℕ} {subfields : List Subfield}
    (h : inOrder offset subfields = true) : Layout.Disjoint (places subfields) := by
  induction subfields generalizing offset with
  | nil => exact List.Pairwise.nil
  | cons s rest ih =>
    rw [inOrder, Bool.and_eq_true] at h
    refine List.pairwise_cons.mpr ⟨?_, ih h.2⟩
    intro p hp
    obtain ⟨t, ht, rfl⟩ := List.mem_map.mp hp
    exact Or.inl (offset_le_of_inOrder h.2 t ht)

theorem length_fresh (itemsize i : ℕ) : (fresh memory itemsize i).length = itemsize := by
  unfold fresh
  rw [List.length_map, List.length_range]

section Assign

variable {dtype : Dtype} {values : List (List Value)}

/-- There is a value for every subfield, of its size. -/
def Fits (dtype : Dtype) (values : List (List Value)) : Prop :=
  ∀ row ∈ values, Layout.Fit (places dtype.fields) row

theorem length_of_mem_assign (h : Fits dtype values) :
    ∀ record ∈ assign memory dtype values, record.length = dtype.itemsize := by
  intro record hrecord
  obtain ⟨i, hi, rfl⟩ := List.mem_mapIdx.mp hrecord
  have hwithin : Layout.Within (fresh memory dtype.itemsize i).length (places dtype.fields) := by
    rw [length_fresh]
    exact dtype.within
  rw [Layout.length_puts hwithin (h _ (List.getElem_mem hi)), length_fresh]

theorem map_gets_assign (hdisjoint : Layout.Disjoint (places dtype.fields))
    (h : Fits dtype values) :
    (assign memory dtype values).map (Layout.gets (places dtype.fields)) = values := by
  apply List.ext_getElem
  · simp [assign]
  · intro i hi hi'
    have hwithin : Layout.Within (fresh memory dtype.itemsize i).length (places dtype.fields) := by
      rw [length_fresh]
      exact dtype.within
    simp only [assign, List.getElem_map, List.getElem_mapIdx]
    exact Layout.gets_puts hdisjoint hwithin (h _ (List.getElem_mem hi'))

theorem fit_castRow {datatype : Scalar} {row : List Value}
    (h : row.length = dtype.fields.length) :
    Layout.Fit (places dtype.fields) (castRow np datatype dtype row) := by
  unfold castRow places Layout.Fit
  generalize dtype.fields = fields at h
  induction fields generalizing row with
  | nil => exact List.Forall₂.nil
  | cons s rest ih =>
    cases row with
    | nil => cases h
    | cons v row => exact List.Forall₂.cons (np.length_astype _ _ _) (ih (Nat.succ.inj h))

end Assign

/-! ### The array that is made into a message -/

/-- An array has the size of its shape, and tuples have the values of the fields. -/
def Points.WellFormed (dtype : Dtype) : Points → Prop
  | .unstructured _ shape columns rows =>
    rows.length = shape.prod ∧ ∀ row ∈ rows, row.length = columns
  | .structured dtype shape records =>
    records.length = shape.prod ∧ ∀ record ∈ records, record.length = dtype.itemsize
  | .objects rows => Fits dtype rows

/-- The values of the points, in the formats of the fields. -/
def Points.values (np : Numpy) (dtype : Dtype) : Points → List (List Value)
  | .unstructured datatype _ _ rows => rows.map (castRow np datatype dtype)
  | .structured dtype _ records => records.map (Layout.gets (places dtype.fields))
  | .objects rows => rows

/-- A structured array and the values in it. -/
structure Holds (dtype : Dtype) (shape : List ℕ) (records : List (List UInt8))
    (values : List (List Value)) : Prop where
  size : records.length = shape.prod
  itemsize : ∀ record ∈ records, record.length = dtype.itemsize
  values : records.map (Layout.gets (places dtype.fields)) = values

theorem toStructured_dtype {fields : List PointField} {points : Points} {dtype : Dtype}
    {shape : List ℕ} {records : List (List UInt8)}
    (h : toStructured np memory fields points = .ok (dtype, shape, records)) :
    dtypeFromFields fields none = .ok dtype := by
  cases points with
  | unstructured datatype shape' columns rows =>
    unfold toStructured at h
    split_ifs at h
    obtain ⟨dtype', hdtype, h⟩ := bind_eq_ok h
    split_ifs at h
    cases h
    exact hdtype
  | structured dtype' shape' records' =>
    obtain ⟨expected, hdtype, h⟩ := bind_eq_ok h
    split_ifs at h with heq
    cases h
    rwa [not_not.mp heq]
  | objects rows =>
    obtain ⟨dtype', hdtype, h⟩ := bind_eq_ok h
    split_ifs at h
    cases h
    exact hdtype

theorem toStructured_holds {fields : List PointField} {points : Points} {dtype : Dtype}
    {shape : List ℕ} {records : List (List UInt8)}
    (h : toStructured np memory fields points = .ok (dtype, shape, records))
    (hdisjoint : Layout.Disjoint (places dtype.fields)) (hpoints : points.WellFormed dtype) :
    Holds dtype shape records (points.values np dtype) := by
  cases points with
  | unstructured datatype shape' columns rows =>
    unfold toStructured at h
    split_ifs at h
    obtain ⟨dtype', -, h⟩ := bind_eq_ok h
    split_ifs at h with hzero hcolumns
    cases h
    have hfits : Fits dtype (rows.map (castRow np datatype dtype)) := by
      intro row hrow
      obtain ⟨row', hrow', rfl⟩ := List.mem_map.mp hrow
      exact fit_castRow ((hpoints.2 row' hrow').trans (not_not.mp hcolumns))
    refine ⟨?_, length_of_mem_assign hfits, map_gets_assign hdisjoint hfits⟩
    simpa [assign] using hpoints.1
  | structured dtype' shape' records' =>
    obtain ⟨expected, -, h⟩ := bind_eq_ok h
    split_ifs at h
    cases h
    exact ⟨hpoints.1, hpoints.2, rfl⟩
  | objects rows =>
    obtain ⟨dtype', -, h⟩ := bind_eq_ok h
    split_ifs at h
    cases h
    exact ⟨by simp [assign], length_of_mem_assign hpoints, map_gets_assign hdisjoint hpoints⟩

/-- The data of a message is made of these items, and of `rest` behind them. -/
structure Items (cloud : PointCloud2 H) (dtype : Dtype) (records : List (List UInt8))
    (rest : List UInt8) : Prop where
  dtype_eq : dtypeFromFields cloud.fields (some cloud.pointStep) = .ok dtype
  size : records.length = cloud.width * cloud.height
  itemsize : ∀ record ∈ records, record.length = dtype.itemsize
  data : cloud.data = records.flatten ++ rest

/-- A message that `create_cloud` returned has the values of the points. -/
structure Created (bigEndian : Bool) (fields : List PointField) (dtype : Dtype)
    (values : List (List Value)) (cloud : PointCloud2 H) : Prop where
  order : cloud.isBigendian = bigEndian
  fields_eq : cloud.fields = fields
  disjoint : Layout.Disjoint (places dtype.fields)
  items : ∃ records, Items cloud dtype records [] ∧
    records.map (Layout.gets (places dtype.fields)) = values

theorem created {header : H} {fields : List PointField} {points : Points} {cloud : PointCloud2 H}
    (h : createCloud np bigEndian memory header fields points = .ok cloud) {dtype : Dtype}
    (hdtype : dtypeFromFields fields none = .ok dtype) (hpoints : points.WellFormed dtype) :
    Created bigEndian fields dtype (points.values np dtype) cloud := by
  obtain ⟨⟨dtype', shape, records⟩, hstructured, h⟩ := bind_eq_ok h
  cases hdtype.symm.trans (toStructured_dtype hstructured)
  dsimp only at h
  unfold ofStructured at h
  split_ifs at h with hshape hrepresentable
  · cases shape with
    | nil => cases h
    | cons width heights => cases h
  · cases shape with
    | nil => cases h
    | cons width heights =>
      dsimp only at h
      split_ifs at h with hzero
      cases h
      have hdisjoint : Layout.Disjoint (places dtype.fields) := by
        unfold representable at hrepresentable
        rw [Bool.not_eq_false, Bool.and_eq_true] at hrepresentable
        exact disjoint_of_inOrder hrepresentable.1
      obtain ⟨hsize, hitemsize, hvalues⟩ := toStructured_holds hstructured hdisjoint hpoints
      refine ⟨rfl, rfl, hdisjoint, records,
        ⟨dtypeFromFields_itemsize hdtype, ?_, hitemsize, ?_⟩, hvalues⟩
      · rw [hsize]
        match heights, hshape with
        | [], _ => simp
        | [height], _ => simp
        | _ :: _ :: _, hshape => exact absurd hshape (by simp)
      · exact (List.append_nil _).symm

/-! ### Reading -/

section Read

variable {cloud : PointCloud2 H} {dtype : Dtype} {records records' : List (List UInt8)}
  {rest : List UInt8} {fieldNames : Option (List String)} {selected : List Subfield}

theorem ndarray_items (h : Items cloud dtype records rest) :
    ndarray cloud = .ok (dtype, records) := by
  have hlength : records.flatten.length = cloud.width * cloud.height * dtype.itemsize := by
    rw [Blocks.length_flatten h.itemsize, h.size]
  have hblocks :
      Blocks.blocks dtype.itemsize (cloud.width * cloud.height) cloud.data = records := by
    rw [h.data, Blocks.blocks_append (by omega), ← h.size, Blocks.blocks_flatten h.itemsize]
  unfold ndarray
  rw [h.dtype_eq]
  show (if cloud.data.length < _ then _ else Except.ok (dtype, _)) = _
  rw [hblocks, if_neg]
  rw [h.data, List.length_append, hlength]
  omega

/-- The items are overwritten in their place. -/
theorem items_overwrite (h : Items cloud dtype records rest)
    (hsize : records'.length = records.length)
    (hitemsize : ∀ record ∈ records', record.length = dtype.itemsize) :
    Items (overwrite cloud records') dtype records' rest := by
  refine ⟨h.dtype_eq, hsize.trans h.size, hitemsize, ?_⟩
  have hlength : records'.flatten.length = records.flatten.length := by
    rw [Blocks.length_flatten hitemsize, Blocks.length_flatten h.itemsize, hsize]
  show records'.flatten ++ cloud.data.drop records'.flatten.length = _
  rw [h.data, List.drop_left' hlength.symm]

/-! #### The fields that are asked for -/

theorem select_some {names : List String} (h : select dtype (some names) = .ok selected) :
    (∀ name ∈ names, name ∈ dtype.fields.map Subfield.name) ∧ names.Nodup ∧
      selected = names.filterMap dtype.find := by
  unfold select at h
  dsimp only at h
  split_ifs at h with hall hnodup
  cases h
  exact ⟨hall, hnodup, rfl⟩

theorem mem_of_select (h : select dtype fieldNames = .ok selected) :
    ∀ s ∈ selected, s ∈ dtype.fields := by
  intro s hs
  cases fieldNames with
  | none =>
    cases h
    exact hs
  | some names =>
    obtain ⟨-, -, rfl⟩ := select_some h
    obtain ⟨name, -, hfind⟩ := List.mem_filterMap.mp hs
    exact List.mem_of_find?_eq_some hfind

theorem within_of_select (h : select dtype fieldNames = .ok selected) :
    Layout.Within dtype.itemsize (places selected) := by
  intro p hp
  obtain ⟨s, hs, rfl⟩ := List.mem_map.mp hp
  exact dtype.within _ (List.mem_map_of_mem (mem_of_select h s hs))

/-- Every name that is asked for is found. -/
theorem map_name_filterMap {names : List String}
    (h : ∀ name ∈ names, name ∈ dtype.fields.map Subfield.name) :
    (names.filterMap dtype.find).map Subfield.name = names := by
  induction names with
  | nil => rfl
  | cons name names ih =>
    obtain ⟨hname, hnames⟩ := List.forall_mem_cons.mp h
    obtain ⟨s, hs, hsname⟩ := List.mem_map.mp hname
    have hsome : (dtype.find name).isSome := by
      unfold Dtype.find
      rw [List.find?_isSome]
      exact ⟨s, hs, by simpa using hsname⟩
    obtain ⟨t, ht⟩ := Option.isSome_iff_exists.mp hsome
    have heq := List.find?_some ht
    rw [decide_eq_true_eq] at heq
    rw [List.filterMap_cons_some ht, List.map_cons, ih hnames, heq]

/-- Fields that are apart stay so in any choice of them. -/
theorem disjoint_of_select (h : select dtype fieldNames = .ok selected)
    (hdisjoint : Layout.Disjoint (places dtype.fields)) : Layout.Disjoint (places selected) := by
  cases fieldNames with
  | none =>
    cases h
    exact hdisjoint
  | some names =>
    have hmem := mem_of_select h
    obtain ⟨hall, hnodup, rfl⟩ := select_some h
    have hselected : (names.filterMap dtype.find).Nodup := by
      refine List.Nodup.of_map Subfield.name ?_
      rwa [map_name_filterMap hall]
    have hapart : dtype.fields.Pairwise fun s t => s.place.Apart t.place :=
      List.pairwise_map.mp hdisjoint
    have hsymm : Std.Symm fun s t : Subfield => s.place.Apart t.place :=
      ⟨fun _ _ => Layout.Place.Apart.symm⟩
    refine List.pairwise_map.mpr (hselected.pairwise_of_forall_ne fun s hs t ht hne => ?_)
    exact hapart.forall (hmem s hs) (hmem t ht) hne

/-! #### The byte order -/

section Swap

variable {record : List UInt8}

theorem length_byteswap (hwithin : Layout.Within record.length (places selected))
    (hdisjoint : Layout.Disjoint (places selected)) :
    (byteswap selected record).length = record.length :=
  Layout.length_updates (fun _ => List.length_reverse) hdisjoint hwithin

theorem gets_byteswap (hwithin : Layout.Within record.length (places selected))
    (hdisjoint : Layout.Disjoint (places selected)) :
    Layout.gets (places selected) (byteswap selected record) =
      (Layout.gets (places selected) record).map List.reverse :=
  Layout.gets_updates (fun _ => List.length_reverse) hdisjoint hwithin

theorem byteswap_byteswap (hwithin : Layout.Within record.length (places selected))
    (hdisjoint : Layout.Disjoint (places selected)) :
    byteswap selected (byteswap selected record) = record :=
  Layout.updates_updates (fun _ => List.length_reverse) (fun _ => List.length_reverse)
    List.reverse_reverse hdisjoint hwithin

end Swap

/-! #### What is read -/

/-- The items of a message that numpy takes for an array. -/
theorem items_of_ndarray (h : ndarray cloud = .ok (dtype, records)) :
    ∃ rest, Items cloud dtype records rest := by
  obtain ⟨dtype', hdtype, h⟩ := bind_eq_ok h
  split_ifs at h with hlength
  cases h
  have hle : cloud.width * cloud.height * dtype.itemsize ≤ cloud.data.length := by omega
  refine ⟨cloud.data.drop (cloud.width * cloud.height * dtype.itemsize), hdtype,
    Blocks.length_blocks _ _ _, Blocks.length_of_mem_blocks hle, ?_⟩
  rw [Blocks.flatten_blocks, List.take_append_drop]

theorem readPoints_items (np : Numpy) (bigEndian : Bool) (h : Items cloud dtype records rest)
    (hselect : select dtype fieldNames = .ok selected) (hnames : fieldNames ≠ some []) :
    readPoints np bigEndian cloud fieldNames false =
      .ok ⟨selected, (swapped bigEndian cloud selected records).map (Layout.gets (places selected)),
        overwrite cloud (swapped bigEndian cloud selected records)⟩ := by
  unfold readPoints
  rw [ndarray_items h]
  show (if fieldNames = some [] then _ else (select dtype fieldNames >>= _)) = _
  rw [if_neg hnames, hselect]
  rfl

/-- Whatever `read_points` reads is items of the message. -/
theorem exists_items {r : Structured H}
    (h : readPoints np bigEndian cloud fieldNames false = .ok r) (hnames : fieldNames ≠ some []) :
    ∃ dtype records rest, Items cloud dtype records rest ∧
      select dtype fieldNames = .ok r.fields := by
  obtain ⟨⟨dtype, records⟩, hndarray, h⟩ := bind_eq_ok h
  obtain ⟨rest, hitems⟩ := items_of_ndarray hndarray
  dsimp only at h
  rw [if_neg hnames] at h
  obtain ⟨selected, hselect, h⟩ := bind_eq_ok h
  cases h
  exact ⟨dtype, records, rest, hitems, hselect⟩

/-! #### The round trip -/

/-- A value that was written in one byte order, for a machine with another. -/
def turned (bigEndian bigEndian' : Bool) (v : Value) : Value :=
  if bigEndian = bigEndian' then v else v.reverse

/-- The values of the fields that are asked for, in a row of the values of all. -/
def columns (dtype : Dtype) : Option (List String) → List Value → List Value
  | none, row => row
  | some names, row =>
    names.filterMap fun name =>
      ((dtype.fields.zip row).find? fun e => e.1.name = name).map Prod.snd

theorem find?_zip_map {B : Type} (f : Subfield → B) (fields : List Subfield) (name : String) :
    ((fields.zip (fields.map f)).find? fun e => e.1.name = name).map Prod.snd =
      (fields.find? fun s => s.name = name).map f := by
  induction fields with
  | nil => rfl
  | cons s rest ih =>
    rw [List.map_cons, List.zip_cons_cons, List.find?_cons, List.find?_cons]
    by_cases hs : s.name = name
    · simp [hs]
    · simpa [hs] using ih

theorem gets_select (h : select dtype fieldNames = .ok selected) (record : List UInt8) :
    Layout.gets (places selected) record =
      columns dtype fieldNames (Layout.gets (places dtype.fields) record) := by
  cases fieldNames with
  | none =>
    cases h
    rfl
  | some names =>
    obtain ⟨-, -, rfl⟩ := select_some h
    unfold Layout.gets places columns
    rw [List.map_map, List.map_map, List.map_filterMap]
    refine List.filterMap_congr fun name _ => ?_
    exact (find?_zip_map _ dtype.fields name).symm

theorem map_gets_swapped (h : Items cloud dtype records rest)
    (hselect : select dtype fieldNames = .ok selected)
    (hdisjoint : Layout.Disjoint (places selected)) :
    (swapped bigEndian cloud selected records).map (Layout.gets (places selected)) =
      (records.map (Layout.gets (places selected))).map
        (List.map (turned cloud.isBigendian bigEndian)) := by
  unfold swapped turned
  by_cases horder : bigEndian = cloud.isBigendian
  · simp [horder]
  · rw [if_pos horder, List.map_map, List.map_map]
    refine List.map_congr_left fun record hrecord => ?_
    have hwithin : Layout.Within record.length (places selected) := by
      rw [h.itemsize record hrecord]
      exact within_of_select hselect
    simpa [Ne.symm horder] using gets_byteswap hwithin hdisjoint

end Read

/-- **What was written is read.**  Whoever reads a cloud that `create_cloud` returned gets, of every
point in order, the values of the fields that are asked for.  What the memory held does not matter,
and values from a machine of the other byte order are turned round. -/
theorem readPoints_createCloud {header : H} {fields : List PointField} {points : Points}
    {cloud : PointCloud2 H} {dtype : Dtype} {fieldNames : Option (List String)}
    {selected : List Subfield}
    (hcloud : createCloud np bigEndian memory header fields points = .ok cloud)
    (hdtype : dtypeFromFields fields none = .ok dtype) (hpoints : points.WellFormed dtype)
    (hselect : select dtype fieldNames = .ok selected) (hnames : fieldNames ≠ some []) :
    ∃ cloud', readPoints np bigEndian' cloud fieldNames false =
      .ok ⟨selected, (points.values np dtype).map fun row =>
        (columns dtype fieldNames row).map (turned bigEndian bigEndian'), cloud'⟩ := by
  obtain ⟨horder, -, hdisjoint, records, hitems, hvalues⟩ := created hcloud hdtype hpoints
  refine ⟨overwrite cloud (swapped bigEndian' cloud selected records), ?_⟩
  have hrows : records.map (Layout.gets (places selected)) =
      (points.values np dtype).map (columns dtype fieldNames) := by
    rw [← hvalues, List.map_map]
    exact List.map_congr_left fun record _ => gets_select hselect record
  rw [readPoints_items np bigEndian' hitems hselect hnames,
    map_gets_swapped hitems hselect (disjoint_of_select hselect hdisjoint), hrows, horder,
    List.map_map]
  rfl

/-- Values that are already of the type that they are to have are left as they are. -/
def plain : Numpy where
  astype _ e v := if v.length = e.itemsize then v else List.replicate e.itemsize 0
  resultType d _ := d
  isnan _ _ := false
  length_astype d e v := by
    split_ifs with h
    · exact h
    · exact List.length_replicate
  astype_self d v h := if_pos h
  resultType_self d ds h := rfl

/-- A byte and, behind a gap, two. -/
def gapped : List PointField := [⟨"a", 0, 2, 1⟩, ⟨"b", 2, 4, 1⟩]

def gappedDtype : Dtype where
  fields := [⟨"a", .uint8, 0⟩, ⟨"b", .uint16, 2⟩]
  itemsize := 4
  nodup := by decide
  within := by decide

def tuples : Points := .objects [[[1], [2, 3]], [[4], [5, 6]]]

theorem readPoints_createCloud_gapped :
    ∃ cloud cloud', createCloud plain false (fun _ _ => 255) () gapped tuples = .ok cloud ∧
      readPoints plain true cloud (some ["b", "a"]) false =
        .ok ⟨[⟨"b", .uint16, 2⟩, ⟨"a", .uint8, 0⟩], [[[3, 2], [1]], [[6, 5], [4]]], cloud'⟩ := by
  have hdtype : dtypeFromFields gapped none = .ok gappedDtype := rfl
  have htuples : tuples.WellFormed gappedDtype := by
    intro row hrow
    rcases List.mem_pair.mp hrow with rfl | rfl
    · exact .cons rfl (.cons rfl .nil)
    · exact .cons rfl (.cons rfl .nil)
  have hcreated : ∃ cloud, createCloud plain false (fun _ _ => 255) () gapped tuples = .ok cloud :=
    ⟨_, rfl⟩
  obtain ⟨cloud, hcloud⟩ := hcreated
  have hread : ∃ cloud', readPoints plain true cloud (some ["b", "a"]) false =
      .ok ⟨[⟨"b", .uint16, 2⟩, ⟨"a", .uint8, 0⟩], [[[3, 2], [1]], [[6, 5], [4]]], cloud'⟩ :=
    readPoints_createCloud hcloud hdtype htuples rfl (by decide)
  obtain ⟨cloud', hcloud'⟩ := hread
  exact ⟨cloud, cloud', hcloud, hcloud'⟩

end RoverSwarm.Pc2Utils
