import Mathlib.Data.List.Basic

/-!
# Circular — a history in a circular array

The elements of a history are written one after the other into the slots of an array, and from the
last slot on again from the first.  `Holds m slots l` says that the last `m` elements of the history
`l` stand where they were written.  The next write goes to the slot of the element that is oldest,
so that of `n` slots the last `n` elements can be held and no more.
-/

namespace Circular

variable {α : Type*}

/-- The last `m` elements of `l` stand in their slots. -/
def Holds (m : ℕ) (slots l : List α) : Prop :=
  ∀ k, k < l.length → l.length ≤ k + m → slots[k % slots.length]? = l[k]?

/-- The array after an element was written behind the history. -/
def write (slots : List α) (pos : ℕ) (a : α) : List α := slots.set (pos % slots.length) a

variable {m m' n i j : ℕ} {slots l : List α}

@[simp] theorem length_write (slots : List α) (pos : ℕ) (a : α) :
    (write slots pos a).length = slots.length := List.length_set

/-- Positions less than a round apart belong to different slots. -/
theorem mod_ne_mod (hlt : i < j) (hround : j < i + n) : i % n ≠ j % n := by
  intro heq
  have hzero : (j - i) % n = 0 := Nat.sub_mod_eq_zero_of_mod_eq heq.symm
  rw [Nat.mod_eq_of_lt (by omega)] at hzero
  omega

/-- How far apart two positions are, from what is left of them in an index that starts again at
`n`. -/
theorem count_mod (hle : i ≤ j) (hround : j < i + n) : (j % n + n - i % n) % n = j - i := by
  obtain ⟨d, rfl⟩ := Nat.exists_eq_add_of_le hle
  have hi : i % n < n := Nat.mod_lt _ (by omega)
  rw [← Nat.mod_add_mod, Nat.add_sub_cancel_left]
  rcases Nat.lt_or_ge (i % n + d) n with hlt | hge
  · have hsum : i % n + d + n - i % n = d + n := by omega
    rw [Nat.mod_eq_of_lt hlt, hsum, Nat.add_mod_right, Nat.mod_eq_of_lt (by omega)]
  · have hsum : i % n + d - n + n - i % n = d := by omega
    rw [Nat.mod_eq_sub_mod hge, Nat.mod_eq_of_lt (a := i % n + d - n) (by omega), hsum,
      Nat.mod_eq_of_lt (by omega)]

theorem holds_nil (m : ℕ) (slots : List α) : Holds m slots [] := by
  intro k hk
  exact absurd hk (Nat.not_lt_zero k)

theorem Holds.mono (h : Holds m slots l) (hle : m' ≤ m) : Holds m' slots l :=
  fun k hk hlast => h k hk (by omega)

/-- What is written into the free slot leaves the others alone. -/
theorem Holds.scribble (h : Holds m slots l) (hfree : m < slots.length) (a : α) :
    Holds m (write slots l.length a) l := by
  intro k hk hlast
  have hne : l.length % slots.length ≠ k % slots.length :=
    (mod_ne_mod hk (by omega)).symm
  rw [length_write, write, List.getElem?_set_ne hne]
  exact h k hk hlast

/-- A new element is held beside the ones that were. -/
theorem Holds.write (h : Holds m slots l) (hfree : m < slots.length) (a : α) :
    Holds (m + 1) (write slots l.length a) (l ++ [a]) := by
  intro k hk hlast
  rw [List.length_append, List.length_singleton] at hk hlast
  rw [length_write, Circular.write]
  rcases Nat.lt_or_ge k l.length with hold | hnew
  · have hne : l.length % slots.length ≠ k % slots.length :=
      (mod_ne_mod hold (by omega)).symm
    rw [List.getElem?_set_ne hne, List.getElem?_append_left hold]
    exact h k hold (by omega)
  · obtain rfl : k = l.length := by omega
    have hslot : l.length % slots.length < slots.length := Nat.mod_lt _ (by omega)
    rw [List.getElem?_set_self hslot, List.getElem?_concat_length]

/-- A full ring forgets its oldest element for the new one. -/
theorem Holds.write_full (h : Holds slots.length slots l) (hpos : 0 < slots.length) (a : α) :
    Holds slots.length (Circular.write slots l.length a) (l ++ [a]) := by
  have hnext := (h.mono (Nat.sub_le slots.length 1)).write (by omega) a
  rwa [Nat.sub_add_cancel hpos] at hnext

end Circular
