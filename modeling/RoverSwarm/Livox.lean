import RoverSwarm.Lib.Blocks
import RoverSwarm.Lib.Dict
import RoverSwarm.Lib.Walk
import RoverSwarm.Relay

/-!
# Livox — the conversion of point clouds

`on_cloud` turns a `PointCloud2` into a Livox `CustomMsg`.  It takes the buffer for a table with a
row of `point_step` bytes for every point, cuts the coordinates out of the table and adds times that
rise through the scan.  A reader that goes by the message would start a row of the image every
`row_step` bytes; where rows are padded the table has the wrong size and the callback raises.

How four bytes make a float, and what reflectivity belongs to an intensity, are parameters.
-/

namespace RoverSwarm.Livox

open Blocks
open Relay (Stamp)

/-! ### Messages -/

structure Header where
  stamp : Stamp
  frameId : String
deriving DecidableEq

/-- `sensor_msgs/PointField`, without the count. -/
structure PointField where
  name : String
  offset : ℕ
  datatype : ℕ
deriving DecidableEq

/-- `PointField.FLOAT32`. -/
def FLOAT32 : ℕ := 7

/-- `sensor_msgs/PointCloud2`. -/
structure PointCloud2 where
  header : Header
  height : ℕ
  width : ℕ
  fields : List PointField
  isBigendian : Bool
  pointStep : ℕ
  rowStep : ℕ
  data : List UInt8
deriving DecidableEq

structure CustomPoint (F : Type) where
  offsetTime : UInt32
  x : F
  y : F
  z : F
  reflectivity : UInt8
  tag : UInt8
  line : UInt8
deriving DecidableEq

structure CustomMsg (F : Type) where
  header : Header
  timebase : ℕ
  pointNum : ℕ
  lidarId : UInt8
  rsvd : List UInt8
  points : List (CustomPoint F)
deriving DecidableEq

/-! ### The callback -/

section Callback

variable {F : Type} (decode : List UInt8 → F) (reflectivity : F → UInt8)

def SCAN_PERIOD_NS : ℕ := 100000000

/-- `{f.name: f.offset for f in cloud.fields}`. -/
def offsets (cloud : PointCloud2) : Dict String ℕ :=
  (cloud.fields.map fun f => (f.name, f.offset)).foldl (fun d e => d.set e.1 e.2) ∅

/-- `buf.reshape(n, step)`. -/
def reshape (buf : List UInt8) (n step : ℕ) : Option (List (List UInt8)) :=
  if buf.length = n * step then some (blocks step n buf) else none

/-- `np.frombuffer(.., dtype=np.float32)`. -/
def frombuffer (bytes : List UInt8) : Option (List F) :=
  if bytes.length % 4 = 0 then some ((blocks 4 (bytes.length / 4) bytes).map decode) else none

/-- The floats at `offset` in all rows. -/
def column (rows : List (List UInt8)) (offset : ℕ) : Option (List F) :=
  frombuffer decode (rows.map (slice offset 4)).flatten

def refls (rows : List (List UInt8)) (n : ℕ) : Option ℕ → Option (List UInt8)
  | some oi => (column decode rows oi).map (List.map reflectivity)
  | none => some (List.replicate n 0)

/-- `offset_times`: the product of two arrays of `uint32`. -/
def offsetTimes (n : ℕ) : List UInt32 :=
  (List.range n).map fun i => UInt32.ofNat i * UInt32.ofNat (SCAN_PERIOD_NS / max 1 n)

/-- The value of an unsigned field of a message, which is checked at the assignment. -/
def unsigned (bits : ℕ) (v : ℤ) : Option ℕ :=
  if 0 ≤ v ∧ v < 2 ^ bits then some v.toNat else none

def nanoseconds (stamp : Stamp) : ℤ := stamp.sec * 1000000000 + stamp.nanosec

/-- The loop that builds the points. -/
def pts (n : ℕ) (times : List UInt32) (xs ys zs : List F) (rs : List UInt8) :
    Option (List (CustomPoint F)) :=
  (List.range n).mapM fun i => do
    return {
      offsetTime := ← times[i]?, x := ← xs[i]?, y := ← ys[i]?, z := ← zs[i]?
      reflectivity := ← rs[i]?, tag := 0, line := 0 }

/-- `on_cloud`: the message it publishes, if any; `none` if it raises. -/
def onCloud (cloud : PointCloud2) : Option (Option (CustomMsg F)) :=
  match (offsets cloud).get? "x", (offsets cloud).get? "y", (offsets cloud).get? "z" with
  | some ox, some oy, some oz =>
    let n := cloud.width * cloud.height
    if n = 0 then some none
    else do
      let rows ← reshape cloud.data n cloud.pointStep
      let xs ← column decode rows ox
      let ys ← column decode rows oy
      let zs ← column decode rows oz
      let rs ← refls decode reflectivity rows n ((offsets cloud).get? "intensity")
      let points ← pts n (offsetTimes n) xs ys zs rs
      let timebase ← unsigned 64 (nanoseconds cloud.header.stamp)
      let pointNum ← unsigned 32 n
      return some {
        header := cloud.header, timebase := timebase, pointNum := pointNum, lidarId := 0
        rsvd := [0, 0, 0], points := points }
  | _, _, _ => some none

end Callback

/-! ### A reader of the points -/

section Reader

variable {F : Type} (decode : List UInt8 → F) (reflectivity : F → UInt8)

/-- A float field that lies within a point. -/
def PointCloud2.HasFloat (cloud : PointCloud2) (name : String) : Prop :=
  ∃ f ∈ cloud.fields, f.name = name ∧ f.datatype = FLOAT32 ∧ f.offset + 4 ≤ cloud.pointStep

/-- A well-formed cloud with coordinates and intensities. -/
structure PointCloud2.WellFormed (cloud : PointCloud2) : Prop where
  names : (cloud.fields.map PointField.name).Nodup
  float : ∀ name ∈ ["x", "y", "z", "intensity"], cloud.HasFloat name
  rowStep : cloud.width * cloud.pointStep ≤ cloud.rowStep
  data : cloud.data.length = cloud.rowStep * cloud.height
  sec : -2 ^ 31 ≤ cloud.header.stamp.sec ∧ cloud.header.stamp.sec < 2 ^ 31
  nanosec : cloud.header.stamp.nanosec < 2 ^ 32

/-- The bytes of a float of the point in `row` and `col`. -/
def PointCloud2.bytesAt (cloud : PointCloud2) (row col offset : ℕ) : List UInt8 :=
  slice (row * cloud.rowStep + col * cloud.pointStep + offset) 4 cloud.data

/-- `v` is the float `name` of the point in `row` and `col`. -/
def PointCloud2.Reads (cloud : PointCloud2) (row col : ℕ) (name : String) (v : F) : Prop :=
  ∃ f ∈ cloud.fields, f.name = name ∧
    v = decode (if cloud.isBigendian then (cloud.bytesAt row col f.offset).reverse
      else cloud.bytesAt row col f.offset)

/-- The points agree with a reader that goes point by point, and are timed through the scan. -/
structure Agrees (cloud : PointCloud2) (points : List (CustomPoint F)) : Prop where
  length : points.length = cloud.width * cloud.height
  coordinates : ∀ row < cloud.height, ∀ col < cloud.width,
    ∃ p, points[row * cloud.width + col]? = some p ∧ cloud.Reads decode row col "x" p.x ∧
      cloud.Reads decode row col "y" p.y ∧ cloud.Reads decode row col "z" p.z
  start : ∀ p : CustomPoint F, points[0]? = some p → p.offsetTime = 0
  sorted : (points.map CustomPoint.offsetTime).Pairwise (· ≤ ·)
  period : ∀ p ∈ points, p.offsetTime.toNat < SCAN_PERIOD_NS
  -- the times are the multiples of a step, none of them reduced
  noWrap : ∀ (i : ℕ) (p : CustomPoint F), points[i]? = some p →
    p.offsetTime.toNat = i * (SCAN_PERIOD_NS / points.length)

/-- The callback does not raise, and publishes the points of the cloud. -/
def Converts (cloud : PointCloud2) : Prop :=
  ∃ out, onCloud decode reflectivity cloud = some out ∧
    Agrees decode cloud (out.elim [] CustomMsg.points)

/-- The byte order makes no difference for the coordinates. -/
def AnyOrder (cloud : PointCloud2) : Prop :=
  cloud.isBigendian = true → ∀ row < cloud.height, ∀ col < cloud.width,
    ∀ f ∈ cloud.fields, f.name ∈ ["x", "y", "z"] →
      decode (cloud.bytesAt row col f.offset).reverse = decode (cloud.bytesAt row col f.offset)

/-- Rows are not padded, `uint32` and `uint64` hold the number of points and the stamp, and the
coordinates are the same in either byte order if it is not the one of the machine. -/
structure Convertible (cloud : PointCloud2) : Prop where
  dense : cloud.rowStep = cloud.width * cloud.pointStep
  count : cloud.width * cloud.height < 2 ^ 32
  stamp : 0 ≤ nanoseconds cloud.header.stamp
  order : AnyOrder decode cloud

end Reader

/-! ### The fields -/

section Fields

variable {F : Type} {decode : List UInt8 → F} {cloud : PointCloud2}

theorem get?_offsets (hnames : (cloud.fields.map PointField.name).Nodup) {f : PointField}
    (hf : f ∈ cloud.fields) : (offsets cloud).get? f.name = some f.offset := by
  have hnodup : ((cloud.fields.map fun f => (f.name, f.offset)).map Prod.fst).Nodup := by
    rw [List.map_map]
    exact hnames
  have hlookup := (Dict.get?_eq_some_iff (d := ⟨_, hnodup⟩)).mpr
    (List.mem_map.mpr ⟨f, hf, rfl⟩)
  unfold offsets
  rw [Dict.get?_foldl_set hnodup]
  exact (congrArg (Option.or · _) hlookup).trans Option.some_or

/-- The float `name` of a point is at `offset`, and within the point. -/
structure FloatAt (cloud : PointCloud2) (name : String) (offset : ℕ) : Prop where
  field : ∃ f ∈ cloud.fields, f.name = name ∧ f.offset = offset
  get? : (offsets cloud).get? name = some offset
  within : offset + 4 ≤ cloud.pointStep

/-- Where the floats of a point are. -/
structure Layout (cloud : PointCloud2) (ox oy oz oi : ℕ) : Prop where
  x : FloatAt cloud "x" ox
  y : FloatAt cloud "y" oy
  z : FloatAt cloud "z" oz
  intensity : FloatAt cloud "intensity" oi

theorem PointCloud2.WellFormed.exists_floatAt (h : cloud.WellFormed) {name : String}
    (hname : name ∈ ["x", "y", "z", "intensity"]) : ∃ offset, FloatAt cloud name offset := by
  obtain ⟨f, hf, rfl, -, hstep⟩ := h.float name hname
  exact ⟨f.offset, ⟨f, hf, rfl, rfl⟩, get?_offsets h.names hf, hstep⟩

theorem PointCloud2.WellFormed.layout (h : cloud.WellFormed) :
    ∃ ox oy oz oi, Layout cloud ox oy oz oi := by
  obtain ⟨ox, hx⟩ := h.exists_floatAt (show "x" ∈ ["x", "y", "z", "intensity"] by simp)
  obtain ⟨oy, hy⟩ := h.exists_floatAt (show "y" ∈ ["x", "y", "z", "intensity"] by simp)
  obtain ⟨oz, hz⟩ := h.exists_floatAt (show "z" ∈ ["x", "y", "z", "intensity"] by simp)
  obtain ⟨oi, hi⟩ := h.exists_floatAt (show "intensity" ∈ ["x", "y", "z", "intensity"] by simp)
  exact ⟨ox, oy, oz, oi, hx, hy, hz, hi⟩

theorem FloatAt.offset_eq {name : String} {offset : ℕ} (h : FloatAt cloud name offset)
    (hnames : (cloud.fields.map PointField.name).Nodup) {f : PointField} (hf : f ∈ cloud.fields)
    (hname : f.name = name) : f.offset = offset := by
  subst hname
  exact Option.some.inj ((get?_offsets hnames hf).symm.trans h.get?)

/-- A point is read from the field of the dictionary. -/
theorem FloatAt.reads_iff {name : String} {offset : ℕ} (h : FloatAt cloud name offset)
    (hnames : (cloud.fields.map PointField.name).Nodup) (row col : ℕ) (v : F) :
    cloud.Reads decode row col name v ↔
      v = decode (if cloud.isBigendian then (cloud.bytesAt row col offset).reverse
        else cloud.bytesAt row col offset) := by
  constructor
  · rintro ⟨f, hf, hname, hv⟩
    rw [h.offset_eq hnames hf hname] at hv
    exact hv
  · intro hv
    obtain ⟨f, hf, hname, hoffset⟩ := h.field
    refine ⟨f, hf, hname, ?_⟩
    rw [hoffset]
    exact hv

end Fields

/-! ### The times -/

theorem toNat_offsetTime {n i : ℕ} (h : i < n) :
    (UInt32.ofNat i * UInt32.ofNat (SCAN_PERIOD_NS / max 1 n)).toNat = i * (SCAN_PERIOD_NS / n) ∧
      i * (SCAN_PERIOD_NS / n) < SCAN_PERIOD_NS := by
  have hmax : max 1 n = n := by omega
  have hperiod : SCAN_PERIOD_NS < 2 ^ 32 := by decide
  have hle : n * (SCAN_PERIOD_NS / n) ≤ SCAN_PERIOD_NS := Nat.mul_div_le _ _
  rw [hmax, UInt32.toNat_mul, UInt32.toNat_ofNat', UInt32.toNat_ofNat']
  by_cases hdt : SCAN_PERIOD_NS / n = 0
  · rw [hdt]
    refine ⟨by simp, ?_⟩
    rw [Nat.mul_zero]
    decide
  · have hlt : i * (SCAN_PERIOD_NS / n) < n * (SCAN_PERIOD_NS / n) :=
      Nat.mul_lt_mul_of_pos_right h (Nat.pos_of_ne_zero hdt)
    have hi : i ≤ i * (SCAN_PERIOD_NS / n) := Nat.le_mul_of_pos_right _ (Nat.pos_of_ne_zero hdt)
    have hd : SCAN_PERIOD_NS / n ≤ SCAN_PERIOD_NS := Nat.div_le_self _ _
    rw [Nat.mod_eq_of_lt (by omega : i < 2 ^ 32),
      Nat.mod_eq_of_lt (by omega : SCAN_PERIOD_NS / n < 2 ^ 32), Nat.mod_eq_of_lt (by omega)]
    exact ⟨rfl, by omega⟩

/-! ### The message -/

section Message

variable {F : Type} {decode : List UInt8 → F} {reflectivity : F → UInt8} {cloud : PointCloud2}

theorem column_eq {data : List UInt8} {n step offset : ℕ} (hdata : data.length = n * step)
    (h : offset + 4 ≤ step) :
    column decode (blocks step n data) offset =
      some ((List.range n).map fun i => decode (slice (i * step + offset) 4 data)) := by
  unfold column frombuffer
  rw [length_flatten_columns hdata h, Nat.mul_mod_left, if_pos rfl,
    Nat.mul_div_cancel n (by decide), blocks_columns hdata h, List.map_map]
  rfl

theorem pts_eq (n : ℕ) (times : ℕ → UInt32) (xs ys zs : ℕ → F) (rs : ℕ → UInt8) :
    pts n ((List.range n).map times) ((List.range n).map xs) ((List.range n).map ys)
      ((List.range n).map zs) ((List.range n).map rs) =
    some ((List.range n).map fun i => ⟨times i, xs i, ys i, zs i, rs i, 0, 0⟩) := by
  refine Walk.mapM_eq_some_map fun i hi => ?_
  have hget : (List.range n)[i]? = some i := List.getElem?_range (List.mem_range.mp hi)
  simp only [List.getElem?_map, hget, Option.map_some]
  rfl

/-- The point `i` of a cloud whose rows are not padded. -/
def pointAt (decode : List UInt8 → F) (reflectivity : F → UInt8) (cloud : PointCloud2)
    (ox oy oz oi i : ℕ) : CustomPoint F where
  offsetTime := UInt32.ofNat i *
    UInt32.ofNat (SCAN_PERIOD_NS / max 1 (cloud.width * cloud.height))
  x := decode (slice (i * cloud.pointStep + ox) 4 cloud.data)
  y := decode (slice (i * cloud.pointStep + oy) 4 cloud.data)
  z := decode (slice (i * cloud.pointStep + oz) 4 cloud.data)
  reflectivity := reflectivity (decode (slice (i * cloud.pointStep + oi) 4 cloud.data))
  tag := 0
  line := 0

def pointsOf (decode : List UInt8 → F) (reflectivity : F → UInt8) (cloud : PointCloud2)
    (ox oy oz oi : ℕ) : List (CustomPoint F) :=
  (List.range (cloud.width * cloud.height)).map (pointAt decode reflectivity cloud ox oy oz oi)

variable {ox oy oz oi : ℕ}

/-- Without points nothing is published. -/
theorem onCloud_of_empty (h : Layout cloud ox oy oz oi) (hn : cloud.width * cloud.height = 0) :
    onCloud decode reflectivity cloud = some none := by
  simp only [onCloud, h.x.get?, h.y.get?, h.z.get?, if_pos hn]

/-- The callback on a buffer of the size it expects. -/
theorem onCloud_of_dense (h : Layout cloud ox oy oz oi) (hn : cloud.width * cloud.height ≠ 0)
    (hdata : cloud.data.length = cloud.width * cloud.height * cloud.pointStep) :
    onCloud decode reflectivity cloud =
      (unsigned 64 (nanoseconds cloud.header.stamp)).bind fun timebase =>
        (unsigned 32 (cloud.width * cloud.height : ℕ)).bind fun pointNum =>
          some (some ⟨cloud.header, timebase, pointNum, 0, [0, 0, 0],
            pointsOf decode reflectivity cloud ox oy oz oi⟩) := by
  unfold onCloud
  simp only [h.x.get?, h.y.get?, h.z.get?, h.intensity.get?, if_neg hn, refls, reshape,
    if_pos hdata, column_eq hdata h.x.within, column_eq hdata h.y.within,
    column_eq hdata h.z.within, column_eq hdata h.intensity.within, Option.map_some, List.map_map,
    Option.bind_eq_bind, Option.bind_some, offsetTimes, pts_eq]
  rfl

/-- The callback raises on a buffer of another size. -/
theorem onCloud_of_ne (h : Layout cloud ox oy oz oi) (hn : cloud.width * cloud.height ≠ 0)
    (hdata : cloud.data.length ≠ cloud.width * cloud.height * cloud.pointStep) :
    onCloud decode reflectivity cloud = none := by
  unfold onCloud
  simp only [h.x.get?, h.y.get?, h.z.get?, if_neg hn, reshape, if_neg hdata, Option.bind_eq_bind,
    Option.bind_none]

end Message

/-! ### Agreement -/

section Agreement

variable {F : Type} {decode : List UInt8 → F} {reflectivity : F → UInt8} {cloud : PointCloud2}
  {ox oy oz oi : ℕ}

theorem PointCloud2.WellFormed.length_eq_iff (h : cloud.WellFormed)
    (hn : cloud.width * cloud.height ≠ 0) :
    cloud.data.length = cloud.width * cloud.height * cloud.pointStep ↔
      cloud.rowStep = cloud.width * cloud.pointStep := by
  have hheight : 0 < cloud.height := Nat.pos_of_ne_zero (Nat.mul_ne_zero_iff.mp hn).2
  rw [h.data, Nat.mul_right_comm]
  exact ⟨Nat.eq_of_mul_eq_mul_right hheight, congrArg (· * cloud.height)⟩

theorem bytesAt_of_dense (hdense : cloud.rowStep = cloud.width * cloud.pointStep)
    (row col offset : ℕ) :
    cloud.bytesAt row col offset =
      slice ((row * cloud.width + col) * cloud.pointStep + offset) 4 cloud.data := by
  unfold PointCloud2.bytesAt
  rw [hdense, Nat.add_mul, Nat.mul_assoc]

theorem index_lt {row col : ℕ} (hrow : row < cloud.height) (hcol : col < cloud.width) :
    row * cloud.width + col < cloud.width * cloud.height := by
  have hle : (row + 1) * cloud.width ≤ cloud.height * cloud.width := Nat.mul_le_mul_right _ hrow
  rw [Nat.succ_mul] at hle
  rw [Nat.mul_comm cloud.width]
  omega

theorem length_pointsOf : (pointsOf decode reflectivity cloud ox oy oz oi).length =
    cloud.width * cloud.height := by
  unfold pointsOf
  rw [List.length_map, List.length_range]

theorem getElem?_pointsOf {i : ℕ} (hi : i < cloud.width * cloud.height) :
    (pointsOf decode reflectivity cloud ox oy oz oi)[i]? =
      some (pointAt decode reflectivity cloud ox oy oz oi i) := by
  unfold pointsOf
  rw [List.getElem?_map, List.getElem?_range hi, Option.map_some]

theorem exists_of_getElem?_pointsOf {i : ℕ} {p : CustomPoint F}
    (h : (pointsOf decode reflectivity cloud ox oy oz oi)[i]? = some p) :
    i < cloud.width * cloud.height ∧ p = pointAt decode reflectivity cloud ox oy oz oi i := by
  have hi : i < cloud.width * cloud.height := by
    rw [← length_pointsOf]
    exact (List.getElem?_eq_some_iff.mp h).1
  rw [getElem?_pointsOf hi] at h
  exact ⟨hi, (Option.some.inj h).symm⟩

/-- The floats of the table are those of the reader if the byte order makes no difference. -/
theorem FloatAt.reads_slice_iff {name : String} {offset : ℕ} (h : FloatAt cloud name offset)
    (hnames : (cloud.fields.map PointField.name).Nodup)
    (hdense : cloud.rowStep = cloud.width * cloud.pointStep) (row col : ℕ) :
    cloud.Reads decode row col name
      (decode (slice ((row * cloud.width + col) * cloud.pointStep + offset) 4 cloud.data)) ↔
    (cloud.isBigendian = true → decode (cloud.bytesAt row col offset).reverse =
      decode (cloud.bytesAt row col offset)) := by
  rw [h.reads_iff hnames, ← bytesAt_of_dense hdense]
  cases cloud.isBigendian with
  | false => simp
  | true => simp [eq_comm]

/-- The times of the points, whatever their coordinates are. -/
theorem times_pointsOf (decode : List UInt8 → F) (reflectivity : F → UInt8) (cloud : PointCloud2)
    (ox oy oz oi : ℕ) :
    (∀ p, (pointsOf decode reflectivity cloud ox oy oz oi)[0]? = some p → p.offsetTime = 0) ∧
    ((pointsOf decode reflectivity cloud ox oy oz oi).map CustomPoint.offsetTime).Pairwise (· ≤ ·) ∧
    (∀ p ∈ pointsOf decode reflectivity cloud ox oy oz oi,
      p.offsetTime.toNat < SCAN_PERIOD_NS) ∧
    ∀ i p, (pointsOf decode reflectivity cloud ox oy oz oi)[i]? = some p → p.offsetTime.toNat =
      i * (SCAN_PERIOD_NS / (pointsOf decode reflectivity cloud ox oy oz oi).length) := by
  have hnat : ∀ i < cloud.width * cloud.height,
      (pointAt decode reflectivity cloud ox oy oz oi i).offsetTime.toNat =
        i * (SCAN_PERIOD_NS / (cloud.width * cloud.height)) := fun i hi => (toNat_offsetTime hi).1
  refine ⟨fun p hp => ?_, ?_, fun p hp => ?_, fun i p hp => ?_⟩
  · obtain ⟨hi, rfl⟩ := exists_of_getElem?_pointsOf hp
    rw [← UInt32.toNat_inj, hnat 0 hi, Nat.zero_mul]
    rfl
  · unfold pointsOf
    rw [List.map_map, List.pairwise_map]
    refine List.Pairwise.imp_of_mem (fun {i j} hi hj hij => ?_) List.pairwise_lt_range
    show (pointAt decode reflectivity cloud ox oy oz oi i).offsetTime.toNat ≤
      (pointAt decode reflectivity cloud ox oy oz oi j).offsetTime.toNat
    rw [hnat i (List.mem_range.mp hi), hnat j (List.mem_range.mp hj)]
    exact Nat.mul_le_mul_right _ hij.le
  · obtain ⟨i, hi, rfl⟩ := List.mem_map.mp hp
    have hi' := List.mem_range.mp hi
    rw [hnat i hi']
    exact (toNat_offsetTime hi').2
  · obtain ⟨hi, rfl⟩ := exists_of_getElem?_pointsOf hp
    rw [hnat i hi, length_pointsOf]

theorem agrees_iff (h : Layout cloud ox oy oz oi)
    (hnames : (cloud.fields.map PointField.name).Nodup)
    (hdense : cloud.rowStep = cloud.width * cloud.pointStep) :
    Agrees decode cloud (pointsOf decode reflectivity cloud ox oy oz oi) ↔
      AnyOrder decode cloud := by
  constructor
  · intro hagrees hbig row hrow col hcol f hf hname
    obtain ⟨p, hp, hpx, hpy, hpz⟩ := hagrees.coordinates row hrow col hcol
    obtain ⟨-, rfl⟩ := exists_of_getElem?_pointsOf hp
    simp only [List.mem_cons, List.not_mem_nil, or_false] at hname
    rcases hname with hname | hname | hname
    · rw [h.x.offset_eq hnames hf hname]
      exact (h.x.reads_slice_iff hnames hdense row col).mp hpx hbig
    · rw [h.y.offset_eq hnames hf hname]
      exact (h.y.reads_slice_iff hnames hdense row col).mp hpy hbig
    · rw [h.z.offset_eq hnames hf hname]
      exact (h.z.reads_slice_iff hnames hdense row col).mp hpz hbig
  · intro horder
    obtain ⟨hstart, hsorted, hperiod, hnoWrap⟩ :=
      times_pointsOf decode reflectivity cloud ox oy oz oi
    refine ⟨length_pointsOf, fun row hrow col hcol => ?_, hstart, hsorted, hperiod, hnoWrap⟩
    have hcoord {name : String} {offset : ℕ} (hfloat : FloatAt cloud name offset)
        (hname : name ∈ ["x", "y", "z"]) : cloud.Reads decode row col name
          (decode (slice ((row * cloud.width + col) * cloud.pointStep + offset) 4 cloud.data)) := by
      obtain ⟨f, hf, rfl, rfl⟩ := hfloat.field
      exact (hfloat.reads_slice_iff hnames hdense row col).mpr fun hbig =>
        horder hbig row hrow col hcol f hf hname
    exact ⟨_, getElem?_pointsOf (index_lt hrow hcol), hcoord h.x (by simp), hcoord h.y (by simp),
      hcoord h.z (by simp)⟩

theorem agrees_nil (h : cloud.width * cloud.height = 0) : Agrees decode cloud [] where
  length := h.symm
  coordinates row hrow col hcol := absurd (index_lt hrow hcol) (by omega)
  start p hp := absurd hp (by simp)
  sorted := List.Pairwise.nil
  period p hp := absurd hp List.not_mem_nil
  noWrap i p hp := absurd hp (by simp)

theorem unsigned_eq_some_iff {bits : ℕ} {v : ℤ} {u : ℕ} :
    unsigned bits v = some u ↔ (0 ≤ v ∧ v < 2 ^ bits) ∧ v.toNat = u := by
  unfold unsigned
  split_ifs with h
  · simp [h]
  · simp [h]

/-- Without points there is nothing to convert. -/
theorem converts_of_empty (h : cloud.WellFormed) (hn : cloud.width * cloud.height = 0) :
    Converts decode reflectivity cloud := by
  obtain ⟨ox, oy, oz, oi, hlayout⟩ := h.layout
  exact ⟨none, onCloud_of_empty hlayout hn, agrees_nil hn⟩

/-- With padded rows the table has the wrong size. -/
theorem not_converts_of_padded (h : cloud.WellFormed) (hn : cloud.width * cloud.height ≠ 0)
    (hpadded : cloud.rowStep ≠ cloud.width * cloud.pointStep) :
    ¬ Converts decode reflectivity cloud := by
  obtain ⟨ox, oy, oz, oi, hlayout⟩ := h.layout
  rintro ⟨out, hout, -⟩
  rw [onCloud_of_ne hlayout hn fun hdata => hpadded ((h.length_eq_iff hn).mp hdata)] at hout
  exact absurd hout (by simp)

theorem converts_iff_of_dense (h : cloud.WellFormed) (hn : cloud.width * cloud.height ≠ 0)
    (hdense : cloud.rowStep = cloud.width * cloud.pointStep) :
    Converts decode reflectivity cloud ↔ Convertible decode cloud := by
  obtain ⟨ox, oy, oz, oi, hlayout⟩ := h.layout
  have hagrees : Agrees decode cloud (pointsOf decode reflectivity cloud ox oy oz oi) ↔
      AnyOrder decode cloud := agrees_iff hlayout h.names hdense
  unfold Converts
  rw [onCloud_of_dense hlayout hn ((h.length_eq_iff hn).mpr hdense)]
  constructor
  · rintro ⟨out, hout, hpoints⟩
    obtain ⟨timebase, htimebase, hout⟩ := Option.bind_eq_some_iff.mp hout
    obtain ⟨pointNum, hpointNum, hout⟩ := Option.bind_eq_some_iff.mp hout
    obtain rfl := Option.some.inj hout
    have hcount := (unsigned_eq_some_iff.mp hpointNum).1.2
    exact ⟨hdense, by exact_mod_cast hcount, (unsigned_eq_some_iff.mp htimebase).1.1,
      hagrees.mp hpoints⟩
  · intro hconv
    -- a stamp is far below what `uint64` holds
    have hstamp : nanoseconds cloud.header.stamp < 2 ^ 64 := by
      have hsec := h.sec.2
      have hnanosec := h.nanosec
      unfold nanoseconds
      omega
    have hcount : ((cloud.width * cloud.height : ℕ) : ℤ) < 2 ^ 32 := by
      exact_mod_cast hconv.count
    rw [unsigned_eq_some_iff.mpr ⟨⟨hconv.stamp, hstamp⟩, rfl⟩,
      unsigned_eq_some_iff.mpr ⟨⟨Int.natCast_nonneg _, hcount⟩, rfl⟩]
    exact ⟨_, rfl, hagrees.mpr hconv.order⟩

/-- **Conversion of a cloud**: the callback publishes the points at the addresses of the message,
timed through the scan, exactly if there are none, or rows are not padded, the number of points and
the stamp fit into their fields, and the byte order makes no difference. -/
theorem converts_iff (decode : List UInt8 → F) (reflectivity : F → UInt8)
    (h : cloud.WellFormed) : Converts decode reflectivity cloud ↔
      cloud.width * cloud.height = 0 ∨ Convertible decode cloud := by
  by_cases hn : cloud.width * cloud.height = 0
  · exact ⟨fun _ => Or.inl hn, fun _ => converts_of_empty h hn⟩
  by_cases hdense : cloud.rowStep = cloud.width * cloud.pointStep
  · rw [converts_iff_of_dense h hn hdense]
    exact ⟨Or.inr, fun hor => hor.resolve_left hn⟩
  · constructor
    · intro hconv
      exact absurd hconv (not_converts_of_padded h hn hdense)
    · rintro (h0 | hconv)
      · exact absurd h0 hn
      · exact absurd hconv.dense hdense

end Agreement

/-! ### Two by two points -/

/-- The bits of a float, for a little-endian machine. -/
def bits (bytes : List UInt8) : ℕ := bytes.foldr (fun byte v => byte.toNat + 256 * v) 0

/-- The reflectivity of the intensities 0 and 1. -/
def fullOrNone (intensity : ℕ) : UInt8 := if intensity = 0x3f800000 then 255 else 0

/-- The point (1, 2, 0) with the intensity 1. -/
def pointBytes : List UInt8 := [0, 0, 128, 63, 0, 0, 0, 64, 0, 0, 0, 0, 0, 0, 128, 63]

/-- An image of two rows, which end with `padding` bytes. -/
def grid (padding : ℕ) : PointCloud2 where
  header := ⟨⟨1, 0⟩, "rover_0/lidar"⟩
  height := 2
  width := 2
  fields := [⟨"x", 0, FLOAT32⟩, ⟨"y", 4, FLOAT32⟩, ⟨"z", 8, FLOAT32⟩, ⟨"intensity", 12, FLOAT32⟩]
  isBigendian := false
  pointStep := 16
  rowStep := 32 + padding
  data := (List.replicate 2 (pointBytes ++ pointBytes ++ List.replicate padding 0)).flatten

theorem wellFormed_grid (padding : ℕ) : (grid padding).WellFormed where
  names := by
    show ["x", "y", "z", "intensity"].Nodup
    decide
  float := by
    intro name hname
    simp only [List.mem_cons, List.not_mem_nil, or_false] at hname
    rcases hname with rfl | rfl | rfl | rfl
    all_goals simp [PointCloud2.HasFloat, grid]
  rowStep := Nat.le_add_right 32 padding
  data := by
    simp [grid, pointBytes]
    omega
  sec := by
    show (-2 ^ 31 : ℤ) ≤ 1 ∧ (1 : ℤ) < 2 ^ 31
    decide
  nanosec := by
    show 0 < 2 ^ 32
    decide

theorem converts_grid : Converts bits fullOrNone (grid 0) :=
  (converts_iff bits fullOrNone (wellFormed_grid 0)).mpr
    (Or.inr ⟨rfl, by decide, by decide, fun hbig => absurd hbig Bool.false_ne_true⟩)

/-- Four bytes at the end of a row are enough for the callback to raise. -/
theorem not_converts : ¬ ∀ cloud : PointCloud2, cloud.WellFormed →
    Converts bits fullOrNone cloud := fun h =>
  not_converts_of_padded (wellFormed_grid 4) (by decide) (by decide) (h _ (wellFormed_grid 4))

end RoverSwarm.Livox
