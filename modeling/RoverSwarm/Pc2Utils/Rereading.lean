import Mathlib.Data.Nat.Digits.Defs
import RoverSwarm.Pc2Utils.RoundTrip

/-!
# Pc2Utils.Rereading — a message that is read more than once

`read_points` turns values of the other byte order round in the buffer of the message, but leaves
`is_bigendian` as it is: the next one who reads the message turns them back.
`receive_local_descriptors` reads one message for every keyframe that it registers.
-/

namespace RoverSwarm.Pc2Utils

variable {H : Type} {np : Numpy} {bigEndian bigEndian' : Bool} {memory : ℕ → ℕ → UInt8}

/-! ### A loop whose body reads one message -/

section Repeated

variable {A C : Type}

/-- What the calls return, each on the message that the one before left. -/
def repeated (read : C → Except Error (A × C)) : ℕ → C → Except Error (List A)
  | 0, _ => .ok []
  | n + 1, c => do
    let (a, c) ← read c
    let as ← repeated read n c
    .ok (a :: as)

theorem repeated_succ {read : C → Except Error (A × C)} {c d : C} {a : A} {as : List A} {n : ℕ}
    (h : read c = .ok (a, d)) (has : repeated read n d = .ok as) :
    repeated read (n + 1) c = .ok (a :: as) := by
  unfold repeated
  rw [h]
  show (repeated read n d >>= _) = _
  rw [has]
  rfl

theorem map_range_alternate (a b : A) (n : ℕ) :
    (List.range (n + 1)).map (fun k => if k % 2 = 0 then a else b) =
      a :: (List.range n).map fun k => if k % 2 = 0 then b else a := by
  rw [List.range_succ_eq_map, List.map_cons, List.map_map]
  refine congrArg (a :: ·) (List.map_congr_left fun k _ => ?_)
  show (if (k + 1) % 2 = 0 then a else b) = if k % 2 = 0 then b else a
  split_ifs
  · omega
  · rfl
  · rfl
  · omega

/-- Two messages that become each other are read by turns. -/
theorem repeated_alternate {read : C → Except Error (A × C)} {c d : C} {a b : A}
    (hc : read c = .ok (a, d)) (hd : read d = .ok (b, c)) (n : ℕ) :
    repeated read n c = .ok ((List.range n).map fun k => if k % 2 = 0 then a else b) := by
  induction n generalizing a b c d with
  | zero => rfl
  | succ n ih =>
    rw [map_range_alternate]
    exact repeated_succ hc (ih hd hc)

end Repeated

/-! ### `read_points`, again and again -/

section Again

variable {cloud : PointCloud2 H} {dtype : Dtype} {records records' : List (List UInt8)}
  {rest : List UInt8} {fieldNames : Option (List String)} {selected : List Subfield}

/-- `read_points` without what it says of the fields. -/
def readRows (np : Numpy) (bigEndian : Bool) (fieldNames : Option (List String))
    (cloud : PointCloud2 H) : Except Error (List (List Value) × PointCloud2 H) := do
  let r ← readPoints np bigEndian cloud fieldNames false
  .ok (r.rows, r.cloud)

theorem overwrite_overwrite (h : Items cloud dtype records rest)
    (h' : Items (overwrite cloud records') dtype records' rest) :
    overwrite (overwrite cloud records') records = cloud := by
  have hlength : records.flatten.length = records'.flatten.length := by
    rw [Blocks.length_flatten h.itemsize, Blocks.length_flatten h'.itemsize, h.size]
    exact congrArg (· * dtype.itemsize) h'.size.symm
  have hdata : records.flatten ++ (overwrite cloud records').data.drop records.flatten.length =
      cloud.data := by
    rw [h'.data, hlength, List.drop_left, h.data]
  show { cloud with data := _ } = cloud
  rw [hdata]

theorem map_byteswap_byteswap (h : Items cloud dtype records rest)
    (hselect : select dtype fieldNames = .ok selected)
    (hdisjoint : Layout.Disjoint (places selected)) :
    (records.map (byteswap selected)).map (byteswap selected) = records := by
  rw [List.map_map]
  refine (List.map_congr_left fun record hrecord => ?_).trans (List.map_id _)
  refine byteswap_byteswap ?_ hdisjoint
  rw [h.itemsize record hrecord]
  exact within_of_select hselect

theorem items_byteswap (h : Items cloud dtype records rest)
    (hselect : select dtype fieldNames = .ok selected)
    (hdisjoint : Layout.Disjoint (places selected)) :
    Items (overwrite cloud (records.map (byteswap selected))) dtype
      (records.map (byteswap selected)) rest := by
  refine items_overwrite h (List.length_map _) fun record hrecord => ?_
  obtain ⟨record', hrecord', rfl⟩ := List.mem_map.mp hrecord
  have hwithin : Layout.Within record'.length (places selected) := by
    rw [h.itemsize record' hrecord']
    exact within_of_select hselect
  rw [length_byteswap hwithin hdisjoint, h.itemsize record' hrecord']

theorem overwrite_self (h : Items cloud dtype records rest) : overwrite cloud records = cloud := by
  show { cloud with data := records.flatten ++ cloud.data.drop records.flatten.length } = cloud
  rw [h.data, List.drop_left, ← h.data]

theorem turned_turned (v : Value) :
    turned bigEndian bigEndian' (turned bigEndian bigEndian' v) = v := by
  unfold turned
  split_ifs
  · rfl
  · exact List.reverse_reverse v

/-- The second reading undoes what the first one did to the message. -/
theorem readPoints_twice (np : Numpy) (bigEndian : Bool) (h : Items cloud dtype records rest)
    (hselect : select dtype fieldNames = .ok selected) (hnames : fieldNames ≠ some [])
    (hdisjoint : Layout.Disjoint (places selected)) {values : List (List Value)}
    (hvalues : records.map (Layout.gets (places selected)) = values) :
    ∃ cloud', cloud'.fields = cloud.fields ∧
      readPoints np bigEndian cloud fieldNames false =
        .ok ⟨selected, values.map (List.map (turned cloud.isBigendian bigEndian)), cloud'⟩ ∧
      readPoints np bigEndian cloud' fieldNames false = .ok ⟨selected, values, cloud⟩ := by
  have hread := readPoints_items np bigEndian h hselect hnames
  rw [map_gets_swapped h hselect hdisjoint, hvalues] at hread
  by_cases horder : bigEndian = cloud.isBigendian
  · have hswapped : swapped bigEndian cloud selected records = records :=
      if_neg (not_not.mpr horder)
    have hturned : values.map (List.map (turned cloud.isBigendian bigEndian)) = values := by
      unfold turned
      simp [horder]
    rw [hswapped, overwrite_self h, hturned] at hread
    rw [hturned]
    exact ⟨cloud, rfl, hread, hread⟩
  · have hitems := items_byteswap h hselect hdisjoint
    have hswapped : swapped bigEndian cloud selected records = records.map (byteswap selected) :=
      if_pos horder
    have hagain := readPoints_items np bigEndian hitems hselect hnames
    have hback : swapped bigEndian (overwrite cloud (records.map (byteswap selected))) selected
        (records.map (byteswap selected)) = records :=
      (if_pos horder).trans (map_byteswap_byteswap h hselect hdisjoint)
    rw [hback, hvalues, overwrite_overwrite h hitems] at hagain
    rw [hswapped] at hread
    exact ⟨overwrite cloud (records.map (byteswap selected)), rfl, hread, hagain⟩

/-- **Every other reading is right.**  A message that `read_points` reads `n` times gives the points
of the first reading in the first, the third, the fifth; in between, it gives them with the bytes of
each value turned round if the message is of the other byte order. -/
theorem readPoints_again {r : Structured H}
    (h : readPoints np bigEndian cloud fieldNames false = .ok r) (hnames : fieldNames ≠ some [])
    (hdisjoint : Layout.Disjoint (places r.fields)) (n : ℕ) :
    repeated (readRows np bigEndian fieldNames) n cloud =
      .ok ((List.range n).map fun k => if k % 2 = 0 then r.rows
        else r.rows.map (List.map (turned cloud.isBigendian bigEndian))) := by
  obtain ⟨dtype, records, rest, hitems, hselect⟩ := exists_items h hnames
  obtain ⟨cloud', -, hfirst, hsecond⟩ :=
    readPoints_twice np bigEndian hitems hselect hnames hdisjoint rfl
  have hrows := congrArg Structured.rows (Except.ok.inj (h.symm.trans hfirst))
  have hback : r.rows.map (List.map (turned cloud.isBigendian bigEndian)) =
      records.map (Layout.gets (places r.fields)) := by
    rw [hrows, List.map_map]
    refine (List.map_congr_left fun row _ => ?_).trans (List.map_id _)
    show (row.map _).map _ = row
    rw [List.map_map]
    exact (List.map_congr_left fun v _ => turned_turned v).trans (List.map_id _)
  rw [hback, hrows]
  refine repeated_alternate (d := cloud') ?_ ?_ n
  · unfold readRows
    rw [hfirst]
    rfl
  · unfold readRows
    rw [hsecond]
    rfl

end Again

/-- Two bytes of the other byte order. -/
def swappedPair : PointCloud2 Unit where
  header := ()
  height := 1
  width := 1
  fields := [⟨"a", 0, 4, 1⟩]
  isBigendian := true
  pointStep := 2
  rowStep := 2
  data := [1, 2]
  isDense := false

theorem readPoints_again_swappedPair :
    repeated (readRows plain false none) 3 swappedPair =
      .ok [[[[2, 1]]], [[[1, 2]]], [[[2, 1]]]] := by
  have hread : readPoints plain false swappedPair none false =
      .ok ⟨[⟨"a", .uint16, 0⟩], [[[2, 1]]], { swappedPair with data := [2, 1] }⟩ := rfl
  exact readPoints_again hread (by decide) (by decide) 3

/-! ### The points that are registered -/

section Registered

variable {cloud : PointCloud2 H} {header : H} {elements : List Value}

/-- The number whose bytes stand in memory. -/
def number (bigEndian : Bool) (v : Value) : ℕ :=
  Nat.ofDigits 256 ((if bigEndian then v.reverse else v).map UInt8.toNat)

def numbers (bigEndian : Bool) (points : List (List Value)) : List (List ℕ) :=
  points.map (List.map (number bigEndian))

/-- The points of an array by its elements. -/
def rowsOf (elements : List Value) : List (List Value) :=
  Blocks.blocks 3 (elements.length / 3) elements

theorem number_reverse (h : bigEndian ≠ bigEndian') (v : Value) :
    number bigEndian v.reverse = number bigEndian' v := by
  unfold number
  cases bigEndian <;> cases bigEndian'
  · exact absurd rfl h
  · rfl
  · simp
  · exact absurd rfl h

theorem number_turned (v : Value) :
    number bigEndian' (turned bigEndian bigEndian' v) = number bigEndian v := by
  unfold turned
  split_ifs with h
  · rw [h]
  · exact number_reverse (Ne.symm h) v

theorem number_inj {v w : Value} (hlength : v.length = w.length)
    (h : number bigEndian v = number bigEndian w) : v = w := by
  have hbyte : ∀ l : Value, ∀ d ∈ l.map UInt8.toNat, d < 256 := by
    intro l d hd
    obtain ⟨b, -, rfl⟩ := List.mem_map.mp hd
    exact b.toNat_lt
  unfold number at h
  have hdigits := Nat.ofDigits_inj_of_len_eq (by decide) (by split_ifs <;> simp [hlength])
    (hbyte _) (hbyte _) h
  have hbytes := (List.map_injective_iff.mpr fun a b => UInt8.toNat_inj.mp) hdigits
  split_ifs at hbytes
  · exact List.reverse_inj.mp hbytes
  · exact hbytes

/-- The data type of `FIELDS_XYZ`. -/
def xyz : Dtype where
  fields := [⟨"x", .float32, 0⟩, ⟨"y", .float32, 4⟩, ⟨"z", .float32, 8⟩]
  itemsize := 12
  nodup := by decide
  within := by decide

/-- Three values of `float32`. -/
def Triple (row : List Value) : Prop := row.length = 3 ∧ ∀ v ∈ row, v.length = 4

theorem zipWith_self {f : Subfield → Value → Value} {fields : List Subfield} {row : List Value}
    (hlength : row.length = fields.length) (hf : ∀ s ∈ fields, ∀ v ∈ row, f s v = v) :
    List.zipWith f fields row = row := by
  induction fields generalizing row with
  | nil =>
    rw [List.length_eq_zero_iff.mp hlength]
    rfl
  | cons s fields ih =>
    cases row with
    | nil => cases hlength
    | cons v row =>
      have hhead := hf s List.mem_cons_self v List.mem_cons_self
      have htail := ih (Nat.succ.inj hlength) fun t ht w hw =>
        hf t (List.mem_cons_of_mem _ ht) w (List.mem_cons_of_mem _ hw)
      rw [List.zipWith_cons_cons, hhead, htail]

theorem format_of_mem_xyz : ∀ s ∈ xyz.fields, s.format = .float32 := by decide

theorem castRow_xyz {row : List Value} (h : Triple row) : castRow np .float32 xyz row = row := by
  refine zipWith_self h.1 fun s hs v hv => ?_
  rw [format_of_mem_xyz s hs]
  exact np.astype_self _ v (h.2 v hv)

theorem structuredToUnstructured_xyz {rows : List (List Value)} (h : ∀ row ∈ rows, Triple row) :
    structuredToUnstructured np xyz.fields rows = .ok rows := by
  have hout : np.resultType .float32 [.float32, .float32] = .float32 :=
    np.resultType_self _ _ (by decide)
  have hrows : rows.map (List.zipWith (fun s v =>
      np.astype s.format (np.resultType .float32 [.float32, .float32]) v) xyz.fields) = rows := by
    refine (List.map_congr_left fun row hrow => ?_).trans (List.map_id _)
    refine zipWith_self (h row hrow).1 fun s hs v hv => ?_
    rw [format_of_mem_xyz s hs, hout]
    exact np.astype_self _ v ((h row hrow).2 v hv)
  exact congrArg Except.ok hrows

theorem rosPointcloudToPoints_xyz {cloud' : PointCloud2 H} {rows : List (List Value)}
    (hfields : cloud.fields = FIELDS_XYZ)
    (hread : readPoints np bigEndian cloud (some ["x", "y", "z"]) false =
      .ok ⟨xyz.fields, rows, cloud'⟩) (h : ∀ row ∈ rows, Triple row) :
    rosPointcloudToPoints np bigEndian cloud = .ok (rows, cloud') := by
  have hnames : coordinateNames cloud.fields = ["x", "y", "z"] := by
    rw [hfields]
    decide
  have hfiltered : readPointsNumpyFiltered np bigEndian cloud false = .ok (rows, cloud') := by
    unfold readPointsNumpyFiltered
    rw [hnames, hread]
    show (do
      let array ← structuredToUnstructured np xyz.fields rows
      Except.ok (array, cloud')) = _
    rw [structuredToUnstructured_xyz h]
    rfl
  have htake : rows.map (List.take 3) = rows :=
    (List.map_congr_left fun row hrow => List.take_of_length_le (h row hrow).1.le).trans
      (List.map_id _)
  unfold rosPointcloudToPoints
  rw [hfiltered]
  show Except.ok (rows.map (List.take 3), cloud') = _
  rw [htake]

theorem triple_turned {row : List Value} (h : Triple row) :
    Triple (row.map (turned bigEndian bigEndian')) := by
  refine ⟨(List.length_map _).trans h.1, fun v hv => ?_⟩
  obtain ⟨w, hw, rfl⟩ := List.mem_map.mp hv
  unfold turned
  split_ifs
  · exact h.2 w hw
  · rw [List.length_reverse]
    exact h.2 w hw

theorem flatten_rowsOf (h : elements.length % 3 = 0) : (rowsOf elements).flatten = elements := by
  unfold rowsOf
  rw [Blocks.flatten_blocks, List.take_of_length_le]
  omega

theorem triple_of_mem_rowsOf (hlength : elements.length % 3 = 0)
    (h : ∀ v ∈ elements, v.length = 4) : ∀ row ∈ rowsOf elements, Triple row := by
  intro row hrow
  refine ⟨Blocks.length_of_mem_blocks (by omega) row hrow, fun v hv => h v ?_⟩
  rw [← flatten_rowsOf hlength]
  exact List.mem_flatten_of_mem hrow hv

/-- A message that `points_to_ros` returned has the points of the array. -/
theorem created_pointsToRos (h : ∀ v ∈ elements, v.length = 4)
    (hcloud : pointsToRos np bigEndian memory header elements = .ok cloud) :
    elements.length % 3 = 0 ∧ Created bigEndian FIELDS_XYZ xyz (rowsOf elements) cloud := by
  unfold pointsToRos at hcloud
  split_ifs at hcloud with hlength
  have htriple := triple_of_mem_rowsOf hlength h
  have hdtype : dtypeFromFields FIELDS_XYZ none = .ok xyz := rfl
  have hpoints : (Points.unstructured .float32 [elements.length / 3] 3
      (rowsOf elements)).WellFormed xyz :=
    ⟨by simp [rowsOf, Blocks.length_blocks], fun row hrow => (htriple row hrow).1⟩
  have hvalues : (rowsOf elements).map (castRow np .float32 xyz) = rowsOf elements :=
    (List.map_congr_left fun row hrow => castRow_xyz (htriple row hrow)).trans (List.map_id _)
  have hcreated : Created bigEndian FIELDS_XYZ xyz
      ((rowsOf elements).map (castRow np .float32 xyz)) cloud := created hcloud hdtype hpoints
  rw [hvalues] at hcreated
  exact ⟨hlength, hcreated⟩

/-- The clouds that the loop of `receive_local_descriptors` registers, one for each own keyframe. -/
def registered (np : Numpy) (bigEndian : Bool) (n : ℕ) (msg : PointCloud2 H) :
    Except Error (List (List (List Value))) :=
  repeated (rosPointcloudToPoints np bigEndian) n msg

theorem registered_eq (h : ∀ v ∈ elements, v.length = 4)
    (hcloud : pointsToRos np bigEndian memory header elements = .ok cloud) (n : ℕ) :
    registered np bigEndian' n cloud =
      .ok ((List.range n).map fun k => if k % 2 = 0 then
        (rowsOf elements).map (List.map (turned bigEndian bigEndian')) else rowsOf elements) := by
  obtain ⟨hlength, horder, hfields, hdisjoint, records, hitems, hvalues⟩ :=
    created_pointsToRos h hcloud
  have htriple := triple_of_mem_rowsOf hlength h
  have hselect : select xyz (some ["x", "y", "z"]) = .ok xyz.fields := rfl
  obtain ⟨cloud', hfields', hfirst, hsecond⟩ :=
    readPoints_twice np bigEndian' hitems hselect (by decide) hdisjoint hvalues
  rw [horder] at hfirst
  refine repeated_alternate (rosPointcloudToPoints_xyz hfields hfirst ?_)
    (rosPointcloudToPoints_xyz (hfields'.trans hfields) hsecond htriple) n
  intro row hrow
  obtain ⟨row', hrow', rfl⟩ := List.mem_map.mp hrow
  exact triple_turned (htriple row' hrow')

theorem numbers_turned (points : List (List Value)) :
    numbers bigEndian' (points.map (List.map (turned bigEndian bigEndian'))) =
      numbers bigEndian points := by
  unfold numbers
  rw [List.map_map]
  refine List.map_congr_left fun row _ => ?_
  show (row.map _).map _ = _
  rw [List.map_map]
  exact List.map_congr_left fun v _ => number_turned v

/-- Points that are the same in both byte orders. -/
theorem numbers_eq_iff (horder : bigEndian ≠ bigEndian') (points : List (List Value)) :
    numbers bigEndian' points = numbers bigEndian points ↔
      ∀ row ∈ points, ∀ v ∈ row, v.reverse = v := by
  unfold numbers
  rw [List.map_inj_left]
  refine forall₂_congr fun row _ => ?_
  rw [List.map_inj_left]
  refine forall₂_congr fun v _ => ⟨fun h => ?_, fun h => ?_⟩
  · rw [← number_reverse horder] at h
    exact number_inj (List.length_reverse) h
  · rw [← number_reverse horder, h]

/-- **When every keyframe is registered with the points that were sent.**  A robot that registers a
message with `n` of its keyframes uses the numbers of the sender in all of them exactly if the two
machines have one byte order, or the message is read at most once, or it does not matter in which
order the bytes of a coordinate stand. -/
theorem registered_iff (h : ∀ v ∈ elements, v.length = 4)
    (hcloud : pointsToRos np bigEndian memory header elements = .ok cloud) (n : ℕ) :
    ∃ clouds, registered np bigEndian' n cloud = .ok clouds ∧ clouds.length = n ∧
      ((∀ points ∈ clouds, numbers bigEndian' points = numbers bigEndian (rowsOf elements)) ↔
        bigEndian = bigEndian' ∨ n ≤ 1 ∨ ∀ v ∈ elements, v.reverse = v) := by
  refine ⟨_, registered_eq h hcloud n, by simp, ?_⟩
  obtain ⟨hlength, -⟩ := created_pointsToRos h hcloud
  have hpalindromes : (∀ row ∈ rowsOf elements, ∀ v ∈ row, v.reverse = v) ↔
      ∀ v ∈ elements, v.reverse = v := by
    rw [← List.forall_mem_flatten, flatten_rowsOf hlength]
  constructor
  · intro hall
    by_cases horder : bigEndian = bigEndian'
    · exact Or.inl horder
    · by_cases hn : n ≤ 1
      · exact Or.inr (Or.inl hn)
      · -- the second reading is the first wrong one
        have hone : 1 ∈ List.range n := List.mem_range.mpr (by omega)
        have hsecond := hall (rowsOf elements) (List.mem_map.mpr ⟨1, hone, rfl⟩)
        exact Or.inr (Or.inr (hpalindromes.mp ((numbers_eq_iff horder _).mp hsecond)))
  · intro hcond points hpoints
    obtain ⟨k, hk, rfl⟩ := List.mem_map.mp hpoints
    rw [List.mem_range] at hk
    split_ifs with hparity
    · exact numbers_turned _
    · rcases hcond with rfl | hn | hsame
      · rfl
      · omega
      · by_cases horder : bigEndian = bigEndian'
        · rw [horder]
        · exact (numbers_eq_iff horder _).mpr (hpalindromes.mpr hsame)

/-- Two keyframes and a point whose bytes depend on the order. -/
theorem registered_iff_pair :
    ∃ cloud clouds, pointsToRos plain false (fun _ _ => 0) () [[0, 0, 128, 63], [0, 0, 0, 0],
        [0, 0, 0, 0]] = .ok cloud ∧ registered plain true 2 cloud = .ok clouds ∧
      ¬ ∀ points ∈ clouds, numbers true points = [[1065353216, 0, 0]] := by
  have hcloud : ∃ cloud, pointsToRos plain false (fun _ _ => 0) () [[0, 0, 128, 63], [0, 0, 0, 0],
      [0, 0, 0, 0]] = .ok cloud := ⟨_, rfl⟩
  obtain ⟨cloud, hcloud⟩ := hcloud
  have hregistered : ∃ clouds, registered plain true 2 cloud = .ok clouds ∧ clouds.length = 2 ∧ _ :=
    registered_iff (by decide) hcloud 2
  obtain ⟨clouds, hclouds, -, hiff⟩ := hregistered
  refine ⟨cloud, clouds, hcloud, hclouds, fun hall => ?_⟩
  have hcond := hiff.mp hall
  revert hcond
  decide

end Registered

end RoverSwarm.Pc2Utils
