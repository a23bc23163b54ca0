import Mathlib.Data.List.Nodup
import RoverSwarm.Lib.Layout

/-!
# Pc2Utils — point clouds as messages

`create_cloud` writes the points one record after the other and says in `fields` where the values of
a record stand; `read_points` takes them from there.  The records are numpy's structured arrays.  A
value is its bytes, as they stand in memory: a message says in which order that is, and
`read_points` turns them round in the buffer of the message where it is not the machine's own.

What numpy does with single values is a parameter, and so is what a new array finds in memory.
-/

namespace RoverSwarm.Pc2Utils

open Layout (Place)

/-! ### Data types of numpy -/

/-- The scalar data types in `_DATATYPES`. -/
inductive Scalar
  | int8
  | uint8
  | int16
  | uint16
  | int32
  | uint32
  | float32
  | float64
deriving DecidableEq

def Scalar.itemsize : Scalar → ℕ
  | int8 | uint8 => 1
  | int16 | uint16 => 2
  | int32 | uint32 | float32 => 4
  | float64 => 8

/-- The bytes of a value. -/
abbrev Value := List UInt8

/-- What numpy does with single values. -/
structure Numpy where
  astype : Scalar → Scalar → Value → Value
  resultType : Scalar → List Scalar → Scalar
  isnan : Scalar → Value → Bool
  length_astype : ∀ d e v, (astype d e v).length = e.itemsize
  astype_self : ∀ d v, v.length = d.itemsize → astype d d v = v
  resultType_self : ∀ d ds, (∀ e ∈ ds, e = d) → resultType d ds = d

inductive Error
  | keyError
  | assertionError (message : String)
  | valueError
  | typeError
  | indexError
  | notImplementedError
deriving DecidableEq

/-- One of the `names`, with its format and its offset. -/
structure Subfield where
  name : String
  format : Scalar
  offset : ℕ
deriving DecidableEq

def Subfield.place (s : Subfield) : Place := ⟨s.offset, s.format.itemsize⟩

def places (subfields : List Subfield) : List Place := subfields.map Subfield.place

/-- Where the last of the subfields ends. -/
def extent (subfields : List Subfield) : ℕ :=
  subfields.foldr (fun s n => max s.place.stop n) 0

/-- A structured data type: the names are distinct and the subfields lie within an item. -/
structure Dtype where
  fields : List Subfield
  itemsize : ℕ
  nodup : (fields.map Subfield.name).Nodup
  within : Layout.Within itemsize (places fields)
deriving DecidableEq

/-- `np.dtype`. -/
def npDtype (fields : List Subfield) (itemsize : Option ℕ) : Except Error Dtype :=
  if h : (fields.map Subfield.name).Nodup ∧
      Layout.Within (itemsize.getD (extent fields)) (places fields) then
    .ok ⟨fields, itemsize.getD (extent fields), h.1, h.2⟩
  else .error .valueError

/-! ### `dtype_from_fields` -/

structure PointField where
  name : String
  offset : ℕ
  datatype : ℕ
  count : ℕ
deriving DecidableEq

/-- `_DATATYPES`, by the constants of `PointField`. -/
def DATATYPES : ℕ → Except Error Scalar
  | 1 => .ok .int8
  | 2 => .ok .uint8
  | 3 => .ok .int16
  | 4 => .ok .uint16
  | 5 => .ok .int32
  | 6 => .ok .uint32
  | 7 => .ok .float32
  | 8 => .ok .float64
  | _ => .error .keyError

def FLOAT32 : ℕ := 7

def DUMMY_FIELD_PREFIX : String := "unnamed_field"

/-- The name of the field at the position `i`. -/
def fieldName (i : ℕ) (field : PointField) : String :=
  if field.name = "" then DUMMY_FIELD_PREFIX ++ "_" ++ toString i else field.name

/-- What a field of several values is made of. -/
def subfields (i : ℕ) (field : PointField) (datatype : Scalar) : List Subfield :=
  (List.range field.count).map fun a =>
    { name := if field.count > 1 then fieldName i field ++ "_" ++ toString a else fieldName i field
      format := datatype
      offset := field.offset + a * datatype.itemsize }

/-- The loop over the subfields. -/
def addSubfields (acc : List Subfield) : List Subfield → Except Error (List Subfield)
  | [] => .ok acc
  | s :: rest =>
    if s.name ∈ acc.map Subfield.name then
      .error (.assertionError "Duplicate field names are not allowed!")
    else addSubfields (acc ++ [s]) rest

/-- The loop over the fields, from the position `i` on. -/
def addFields (i : ℕ) (acc : List Subfield) : List PointField → Except Error (List Subfield)
  | [] => .ok acc
  | field :: rest => do
    let datatype ← DATATYPES field.datatype
    if field.count = 0 then
      .error (.assertionError "Can't process fields with count = 0.")
    else
      let acc ← addSubfields acc (subfields i field datatype)
      addFields (i + 1) acc rest

/-- `dtype_from_fields`. -/
def dtypeFromFields (fields : List PointField) (pointStep : Option ℕ) : Except Error Dtype := do
  let subfields ← addFields 0 [] fields
  npDtype subfields pointStep

section Dtype

theorem bind_eq_ok {A B : Type} {x : Except Error A} {f : A → Except Error B} {b : B}
    (h : (x >>= f) = .ok b) : ∃ a, x = .ok a ∧ f a = .ok b := by
  cases x with
  | error e => cases h
  | ok a => exact ⟨a, rfl, h⟩

theorem npDtype_eq_ok {fields : List Subfield} {itemsize : Option ℕ} {dtype : Dtype}
    (h : npDtype fields itemsize = .ok dtype) : dtype.fields = fields := by
  unfold npDtype at h
  split_ifs at h
  cases h
  rfl

theorem npDtype_itemsize (dtype : Dtype) : npDtype dtype.fields (some dtype.itemsize) = .ok dtype :=
  dif_pos ⟨dtype.nodup, dtype.within⟩

/-- The size that is computed from the fields is one that they can be read with. -/
theorem dtypeFromFields_itemsize {fields : List PointField} {dtype : Dtype}
    (h : dtypeFromFields fields none = .ok dtype) :
    dtypeFromFields fields (some dtype.itemsize) = .ok dtype := by
  obtain ⟨subfields, hsubfields, hdtype⟩ := bind_eq_ok h
  unfold dtypeFromFields
  rw [hsubfields, ← npDtype_eq_ok hdtype]
  exact npDtype_itemsize dtype

end Dtype

/-! ### `create_cloud` -/

structure PointCloud2 (H : Type) where
  header : H
  height : ℕ
  width : ℕ
  fields : List PointField
  isBigendian : Bool
  pointStep : ℕ
  rowStep : ℕ
  data : List UInt8
  isDense : Bool
deriving DecidableEq

/-- The points that are passed to `create_cloud`. -/
inductive Points
  /-- An array of values of one type; the last axis has `columns` of them. -/
  | unstructured (datatype : Scalar) (shape : List ℕ) (columns : ℕ) (rows : List (List Value))
  /-- A structured array, by the bytes of its items. -/
  | structured (dtype : Dtype) (shape : List ℕ) (records : List (List UInt8))
  /-- Tuples of Python's, whose elements have the formats of the fields. -/
  | objects (rows : List (List Value))

section Create

variable {H : Type} (np : Numpy) (bigEndian : Bool) (memory : ℕ → ℕ → UInt8)

/-- An item of a new array, which holds what stood in the memory. -/
def fresh (itemsize i : ℕ) : List UInt8 := (List.range itemsize).map (memory i)

/-- The items of a new array, after their fields are assigned. -/
def assign (dtype : Dtype) (rows : List (List Value)) : List (List UInt8) :=
  rows.mapIdx fun i row => Layout.puts (places dtype.fields) row (fresh memory dtype.itemsize i)

/-- A row of values of one type as values of the fields. -/
def castRow (datatype : Scalar) (dtype : Dtype) (row : List Value) : List Value :=
  List.zipWith (fun s v => np.astype datatype s.format v) dtype.fields row

/-- `assert all(fields[0].datatype == field.datatype for field in fields[1:])`. -/
def sameDatatype : List PointField → Bool
  | [] => true
  | field :: rest => rest.all fun other => field.datatype = other.datatype

/-- The conversions to a structured array: its data type, its shape and its items. -/
def toStructured (fields : List PointField) :
    Points → Except Error (Dtype × List ℕ × List (List UInt8))
  | .unstructured datatype shape columns rows =>
    if sameDatatype fields = false then
      .error (.assertionError ("All fields need to have the same datatype. " ++
        "Pass a structured NumPy array " ++ "                    with multiple dtypes otherwise."))
    else do
      let dtype ← dtypeFromFields fields none
      if columns = 0 then .error .notImplementedError
      else if columns ≠ dtype.fields.length then .error .valueError
      else .ok (dtype, shape, assign memory dtype (rows.map (castRow np datatype dtype)))
  | .structured dtype shape records => do
    let expected ← dtypeFromFields fields none
    if dtype ≠ expected then
      .error (.assertionError ("PointFields and structured NumPy array dtype do not match " ++
        "for all fields! " ++ "                    Check their field order, names and types."))
    else .ok (dtype, shape, records)
  | .objects rows => do
    let dtype ← dtypeFromFields fields none
    if rows.all fun row => row.length = dtype.fields.length then
      .ok (dtype, [rows.length], assign memory dtype rows)
    else .error .valueError

/-- The subfields follow one another from `offset` on. -/
def inOrder (offset : ℕ) : List Subfield → Bool
  | [] => true
  | s :: rest => offset ≤ s.offset && inOrder s.place.stop rest

/-- numpy describes an item to `memoryview` by its subfields in order, behind each its name and a
colon. -/
def representable (subfields : List Subfield) : Bool :=
  inOrder 0 subfields && subfields.all fun s => ':' ∉ s.name.toList

/-- The message of a structured array. -/
def ofStructured (header : H) (fields : List PointField) (dtype : Dtype) (shape : List ℕ)
    (records : List (List UInt8)) : Except Error (PointCloud2 H) :=
  if shape.length > 2 then
    .error (.assertionError ("Too many dimensions for organized cloud! " ++
      "            Points can only be organized in max. two dimensional space"))
  else match shape with
    | [] => .error .indexError
    | width :: heights =>
      if representable dtype.fields = false then .error .valueError
      -- `memoryview.cast` refuses views with a zero among several axes
      else if heights ≠ [] ∧ 0 ∈ shape then .error .typeError
      else .ok {
        header := header
        height := heights.headD 1
        width := width
        isDense := false
        isBigendian := bigEndian
        fields := fields
        pointStep := dtype.itemsize
        rowStep := dtype.itemsize * width
        data := records.flatten }

/-- `create_cloud`, on a machine whose byte order is `bigEndian`. -/
def createCloud (header : H) (fields : List PointField) (points : Points) :
    Except Error (PointCloud2 H) := do
  let (dtype, shape, records) ← toStructured np memory fields points
  ofStructured bigEndian header fields dtype shape records

end Create

/-! ### `read_points` -/

section Read

variable {H : Type} (np : Numpy) (bigEndian : Bool)

/-- The buffer as a structured array; `np.ndarray` refuses one that is too small. -/
def ndarray (cloud : PointCloud2 H) : Except Error (Dtype × List (List UInt8)) := do
  let dtype ← dtypeFromFields cloud.fields (some cloud.pointStep)
  if cloud.data.length < cloud.width * cloud.height * dtype.itemsize then .error .typeError
  else .ok (dtype, Blocks.blocks dtype.itemsize (cloud.width * cloud.height) cloud.data)

/-- The subfield of a name. -/
def Dtype.find (dtype : Dtype) (name : String) : Option Subfield :=
  dtype.fields.find? fun s => s.name = name

/-- `points[list(field_names)]`: the subfields that are kept. -/
def select (dtype : Dtype) : Option (List String) → Except Error (List Subfield)
  | none => .ok dtype.fields
  | some fieldNames =>
    if ¬ ∀ name ∈ fieldNames, name ∈ dtype.fields.map Subfield.name then
      .error (.assertionError "Requests field is not in the fields of the PointCloud!")
    else if ¬ fieldNames.Nodup then .error .valueError
    else .ok (fieldNames.filterMap dtype.find)

/-- `points.byteswap(inplace=True)`, on one item. -/
def byteswap (selected : List Subfield) (record : List UInt8) : List UInt8 :=
  Layout.updates List.reverse (places selected) record

/-- The message after its first items were overwritten. -/
def overwrite (cloud : PointCloud2 H) (records : List (List UInt8)) : PointCloud2 H :=
  { cloud with data := records.flatten ++ cloud.data.drop records.flatten.length }

/-- The items after the swap, if there is one. -/
def swapped (cloud : PointCloud2 H) (selected : List Subfield) (records : List (List UInt8)) :
    List (List UInt8) :=
  if bigEndian ≠ cloud.isBigendian then records.map (byteswap selected) else records

def notNan (selected : List Subfield) (row : List Value) : Bool :=
  (List.zipWith (fun s v => !np.isnan s.format v) selected row).all id

/-- The rows that are returned for the items. -/
def rows (skipNans : Bool) (cloud : PointCloud2 H) (selected : List Subfield)
    (records : List (List UInt8)) : List (List Value) :=
  let values := records.map (Layout.gets (places selected))
  if skipNans && !cloud.isDense then values.filter (notNan np selected) else values

/-- What `read_points` returns, and the message it leaves. -/
structure Structured (H : Type) where
  fields : List Subfield
  rows : List (List Value)
  cloud : PointCloud2 H
deriving DecidableEq

/-- `read_points`. -/
def readPoints (cloud : PointCloud2 H) (fieldNames : Option (List String)) (skipNans : Bool) :
    Except Error (Structured H) := do
  let (dtype, records) ← ndarray cloud
  -- an empty list of names is an empty list of indices, which copies no item
  if fieldNames = some [] then .ok ⟨dtype.fields, [], cloud⟩
  else
    let selected ← select dtype fieldNames
    let records := swapped bigEndian cloud selected records
    .ok ⟨selected, rows np skipNans cloud selected records, overwrite cloud records⟩

end Read

/-! ### Coordinates -/

section Coordinates

variable {H : Type} (np : Numpy) (bigEndian : Bool) (memory : ℕ → ℕ → UInt8)

/-- `structured_to_unstructured`. -/
def structuredToUnstructured (fields : List Subfield) (rows : List (List Value)) :
    Except Error (List (List Value)) :=
  match fields with
  | [] => .error .valueError
  | field :: rest =>
    let out := np.resultType field.format (rest.map Subfield.format)
    .ok (rows.map (List.zipWith (fun s v => np.astype s.format out v) fields))

/-- The names of the coordinates that the message has, in its order. -/
def coordinateNames (fields : List PointField) : List String :=
  (fields.filter fun field => field.name ∈ ["x", "y", "z"]).map PointField.name

/-- `read_points_numpy_filtered`, with the message it leaves. -/
def readPointsNumpyFiltered (cloud : PointCloud2 H) (skipNans : Bool) :
    Except Error (List (List Value) × PointCloud2 H) := do
  let points ← readPoints np bigEndian cloud (some (coordinateNames cloud.fields)) skipNans
  let array ← structuredToUnstructured np points.fields points.rows
  .ok (array, points.cloud)

/-- `ros_pointcloud_to_points`, with the message it leaves. -/
def rosPointcloudToPoints (msg : PointCloud2 H) :
    Except Error (List (List Value) × PointCloud2 H) := do
  let (array, msg) ← readPointsNumpyFiltered np bigEndian msg false
  .ok (array.map (List.take 3), msg)

def FIELDS_XYZ : List PointField :=
  [⟨"x", 0, FLOAT32, 1⟩, ⟨"y", 4, FLOAT32, 1⟩, ⟨"z", 8, FLOAT32, 1⟩]

/-- `points_to_ros`, of an array of `float32` by its elements. -/
def pointsToRos (header : H) (elements : List Value) : Except Error (PointCloud2 H) :=
  if elements.length % 3 = 0 then
    let n := elements.length / 3
    createCloud np bigEndian memory header FIELDS_XYZ
      (.unstructured .float32 [n] 3 (Blocks.blocks 3 n elements))
  else .error .valueError

end Coordinates

end RoverSwarm.Pc2Utils
