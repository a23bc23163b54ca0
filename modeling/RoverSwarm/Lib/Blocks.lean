import Mathlib.Algebra.BigOperators.Group.List.Basic
import Mathlib.Data.List.Basic

/-!
# Blocks — a list as a table of rows

`blocks step n l` are the first `n` rows of `l`, each with `step` elements.  A slice of a row is a
slice of the list, and rows of one length that are put one after the other are its rows again.
-/

namespace Blocks

variable {α : Type*}

/-- `l[offset:offset + length]`. -/
def slice (offset length : ℕ) (l : List α) : List α := (l.drop offset).take length

def blocks (step n : ℕ) (l : List α) : List (List α) :=
  (List.range n).map fun i => slice (i * step) step l

theorem length_blocks (step n : ℕ) (l : List α) : (blocks step n l).length = n := by
  unfold blocks
  rw [List.length_map, List.length_range]

theorem length_slice {offset length : ℕ} {l : List α} (h : offset + length ≤ l.length) :
    (slice offset length l).length = length := by
  unfold slice
  rw [List.length_take, List.length_drop]
  omega

/-- A slice within a slice. -/
theorem slice_slice {offset length offset' length' : ℕ} (h : offset' + length' ≤ length)
    (l : List α) :
    slice offset' length' (slice offset length l) = slice (offset + offset') length' l := by
  unfold slice
  rw [List.drop_take, List.take_take, List.drop_drop, Nat.min_eq_left (by omega)]

theorem slice_append_left {length : ℕ} {a : List α} (ha : a.length = length) (l : List α) :
    slice 0 length (a ++ l) = a := List.take_left' ha

theorem slice_append_right {offset length k : ℕ} {a : List α} (ha : a.length = k) (l : List α) :
    slice (k + offset) length (a ++ l) = slice offset length l := by
  unfold slice
  rw [← List.drop_drop, List.drop_left' ha]

theorem length_flatten {k : ℕ} {rows : List (List α)} (h : ∀ row ∈ rows, row.length = k) :
    rows.flatten.length = rows.length * k := by
  induction rows with
  | nil => simp
  | cons row rows ih =>
    obtain ⟨hrow, hrows⟩ := List.forall_mem_cons.mp h
    rw [List.flatten_cons, List.length_append, hrow, ih hrows, List.length_cons, Nat.succ_mul]
    omega

/-- Rows of one length are the blocks of the list they make up. -/
theorem blocks_flatten {k : ℕ} {rows : List (List α)} (h : ∀ row ∈ rows, row.length = k) :
    blocks k rows.length rows.flatten = rows := by
  induction rows with
  | nil => rfl
  | cons row rows ih =>
    obtain ⟨hrow, hrows⟩ := List.forall_mem_cons.mp h
    unfold blocks at ih ⊢
    rw [List.length_cons, List.range_succ_eq_map, List.map_cons, List.map_map, List.flatten_cons,
      Nat.zero_mul, slice_append_left hrow]
    refine congrArg (row :: ·) ((List.map_congr_left fun i _ => ?_).trans (ih hrows))
    show slice ((i + 1) * k) k (row ++ rows.flatten) = slice (i * k) k rows.flatten
    rw [Nat.succ_mul, Nat.add_comm, slice_append_right hrow]

theorem length_of_mem_blocks {step n : ℕ} {l : List α} (h : n * step ≤ l.length) :
    ∀ row ∈ blocks step n l, row.length = step := by
  intro row hrow
  obtain ⟨i, hi, rfl⟩ := List.mem_map.mp hrow
  have hin : (i + 1) * step ≤ n * step := Nat.mul_le_mul_right _ (List.mem_range.mp hi)
  rw [Nat.succ_mul] at hin
  exact length_slice (by omega)

/-- The blocks of a list make up its front. -/
theorem flatten_blocks (step n : ℕ) (l : List α) :
    (blocks step n l).flatten = l.take (n * step) := by
  induction n with
  | zero => simp [blocks]
  | succ n ih =>
    unfold blocks at ih ⊢
    rw [List.range_succ, List.map_append, List.flatten_append, ih, Nat.succ_mul, List.take_add]
    simp [slice]

/-- What stands behind the rows does not matter. -/
theorem blocks_append {step n : ℕ} {l : List α} (h : n * step ≤ l.length) (rest : List α) :
    blocks step n (l ++ rest) = blocks step n l := by
  refine List.map_congr_left fun i hi => ?_
  have hin : (i + 1) * step ≤ n * step := Nat.mul_le_mul_right _ (List.mem_range.mp hi)
  rw [Nat.succ_mul] at hin
  unfold slice
  rw [List.drop_append_of_le_length (by omega), List.take_append_of_le_length]
  rw [List.length_drop]
  omega

/-! ### Columns

The slices from `offset` on of every row of a table. -/

section Columns

variable {step n offset length : ℕ} {l : List α}

theorem map_slice_blocks (h : offset + length ≤ step) :
    (blocks step n l).map (slice offset length) =
      (List.range n).map fun i => slice (i * step + offset) length l := by
  unfold blocks
  rw [List.map_map]
  exact List.map_congr_left fun i _ => slice_slice h l

theorem length_of_mem_columns (hl : l.length = n * step) (h : offset + length ≤ step) :
    ∀ column ∈ (blocks step n l).map (slice offset length), column.length = length := by
  intro column hcolumn
  rw [map_slice_blocks h] at hcolumn
  obtain ⟨i, hi, rfl⟩ := List.mem_map.mp hcolumn
  have hin : (i + 1) * step ≤ n * step := Nat.mul_le_mul_right _ (List.mem_range.mp hi)
  rw [Nat.succ_mul] at hin
  exact length_slice (by omega)

theorem length_flatten_columns (hl : l.length = n * step) (h : offset + length ≤ step) :
    ((blocks step n l).map (slice offset length)).flatten.length = n * length := by
  rw [length_flatten (length_of_mem_columns hl h), List.length_map, length_blocks]

/-- Columns that are put one after the other are slices of the list. -/
theorem blocks_columns (hl : l.length = n * step) (h : offset + length ≤ step) :
    blocks length n ((blocks step n l).map (slice offset length)).flatten =
      (List.range n).map fun i => slice (i * step + offset) length l := by
  have hblocks := blocks_flatten (length_of_mem_columns hl h)
  rw [List.length_map, length_blocks] at hblocks
  rw [hblocks, map_slice_blocks h]

end Columns

end Blocks
