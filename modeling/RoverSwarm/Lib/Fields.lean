import Mathlib.Data.List.Count
import Mathlib.Data.Nat.Digits.Defs
import Mathlib.Data.Int.Order.Basic
import Mathlib.Tactic.SplitIfs

/-!
# Fields — text with separators, by fields and by positions

A text is its first field followed by the others, each behind a separator.  Code that walks over
positions of separators meets the same fields: behind the position where a field begins, the next
separator stands where it ends.  A number is read from the front of a text as far as it goes.
-/

namespace Fields

section Separator

variable {α : Type*} [DecidableEq α] (sep : α)

/-- The first field, and the others. -/
def split : List α → List α × List (List α)
  | [] => ([], [])
  | a :: as =>
    if a = sep then ([], (split as).1 :: (split as).2) else (a :: (split as).1, (split as).2)

/-- Fields, each behind a separator. -/
def joined (fs : List (List α)) : List α := fs.flatMap fun f => sep :: f

/-- The position of the first separator at or after `pos`. -/
def find (l : List α) (pos : ℕ) : Option ℕ :=
  ((l.drop pos).findIdx? fun a => a = sep).map fun i => pos + i

variable {sep}

omit [DecidableEq α] in
theorem joined_cons (f : List α) (fs : List (List α)) :
    joined sep (f :: fs) = sep :: (f ++ joined sep fs) := rfl

theorem split_append_joined (l : List α) : (split sep l).1 ++ joined sep (split sep l).2 = l := by
  induction l with
  | nil => rfl
  | cons a as ih =>
    rw [split]
    split_ifs with ha
    · rw [joined_cons, ih, ha]
      rfl
    · rw [List.cons_append, ih]

theorem notMem_split (l : List α) : sep ∉ (split sep l).1 ∧ ∀ f ∈ (split sep l).2, sep ∉ f := by
  induction l with
  | nil => exact ⟨List.not_mem_nil, fun f hf => absurd hf List.not_mem_nil⟩
  | cons a as ih =>
    obtain ⟨hfirst, hothers⟩ := ih
    rw [split]
    split_ifs with ha
    · refine ⟨List.not_mem_nil, fun f hf => ?_⟩
      rcases List.mem_cons.mp hf with rfl | hf
      · exact hfirst
      · exact hothers f hf
    · refine ⟨fun hmem => ?_, hothers⟩
      rcases List.mem_cons.mp hmem with heq | hmem
      · exact ha heq.symm
      · exact hfirst hmem

theorem count_eq_length_split (l : List α) : l.count sep = (split sep l).2.length := by
  induction l with
  | nil => rfl
  | cons a as ih =>
    rw [split, List.count_cons, ih]
    by_cases ha : a = sep
    · rw [if_pos ha, ha]
      simp
    · rw [if_neg ha]
      simp [ha]

/-- A field ends at the next separator. -/
theorem find_field (pre f : List α) (fs : List (List α)) (hf : sep ∉ f) :
    find sep (pre ++ (f ++ joined sep fs)) pre.length =
      if fs = [] then none else some (pre.length + f.length) := by
  have hnone : f.findIdx? (fun a => decide (a = sep)) = none := by
    refine List.findIdx?_eq_none_iff.mpr fun a ha => decide_eq_false ?_
    rintro rfl
    exact hf ha
  unfold find
  rw [List.drop_left, List.findIdx?_append, hnone]
  cases fs with
  | nil => rfl
  | cons g fs => simp [joined_cons, List.findIdx?_cons]

/-- The first field ends at the first separator. -/
theorem find_first (f : List α) (fs : List (List α)) (hf : sep ∉ f) :
    find sep (f ++ joined sep fs) 0 = if fs = [] then none else some f.length := by
  have h := find_field [] f fs hf
  rwa [List.nil_append, List.length_nil, Nat.zero_add] at h

/-- A separator is found where it stands. -/
theorem find_self (pre rest : List α) :
    find sep (pre ++ sep :: rest) pre.length = some pre.length := by
  unfold find
  rw [List.drop_left, List.findIdx?_cons]
  simp

end Separator

/-! ### Numbers -/

/-- `isspace` in the C locale. -/
def isSpace (c : Char) : Bool := c ∈ [' ', '\t', '\n', '\x0b', '\x0c', '\r']

/-- The number that the digits at the front make, if there is one. -/
def leadingNat (s : List Char) : Option ℕ :=
  if s.takeWhile Char.isDigit = [] then none
  else some (Nat.ofDigitChars 10 (s.takeWhile Char.isDigit) 0)

def sign (s : List Char) : ℤ := if s.head? = some '-' then -1 else 1

/-- What follows the sign. -/
def magnitude (s : List Char) : List Char :=
  if s.head? = some '-' ∨ s.head? = some '+' then s.tail else s

/-- The integer at the front, behind white space. -/
def leadingInt (s : List Char) : Option ℤ :=
  let s := s.dropWhile isSpace
  (leadingNat (magnitude s)).map fun n : ℕ => sign s * (n : ℤ)

/-- The text is a numeral of `n`, with white space around it at most. -/
def IsInt (s : List Char) (n : ℤ) : Prop :=
  leadingInt s = some n ∧ ((magnitude (s.dropWhile isSpace)).dropWhile Char.isDigit).all isSpace

instance (s : List Char) (n : ℤ) : Decidable (IsInt s n) := inferInstanceAs (Decidable (_ ∧ _))

/-- A character that belongs to no number ends the number before it. -/
structure Stops (c : Char) : Prop where
  space : isSpace c = false
  digit : c.isDigit = false
  minus : c ≠ '-'
  plus : c ≠ '+'

theorem stops_comma : Stops ',' := ⟨by decide, by decide, by decide, by decide⟩

theorem takeWhile_append_cons {p : Char → Bool} {c : Char} (hc : p c = false) (s rest : List Char) :
    (s ++ c :: rest).takeWhile p = s.takeWhile p := by
  induction s with
  | nil => simp [hc]
  | cons a s ih =>
    rw [List.cons_append, List.takeWhile_cons, List.takeWhile_cons, ih]

theorem dropWhile_append_cons {p : Char → Bool} {c : Char} (hc : p c = false) (s rest : List Char) :
    (s ++ c :: rest).dropWhile p = s.dropWhile p ++ c :: rest := by
  induction s with
  | nil => simp [hc]
  | cons a s ih =>
    rw [List.cons_append, List.dropWhile_cons, List.dropWhile_cons, ih]
    split_ifs <;> rfl

theorem sign_append_cons {c : Char} (hc : Stops c) (s rest : List Char) :
    sign (s ++ c :: rest) = sign s := by
  unfold sign
  cases s with
  | nil => simp [hc.minus]
  | cons a s => rfl

theorem magnitude_append_cons {c : Char} (hc : Stops c) (s rest : List Char) :
    magnitude (s ++ c :: rest) = magnitude s ++ c :: rest := by
  unfold magnitude
  cases s with
  | nil => simp [hc.minus, hc.plus]
  | cons a s =>
    have hhead : (a :: s ++ c :: rest).head? = (a :: s).head? := rfl
    rw [hhead]
    split_ifs
    · rfl
    · rfl

/-- **A number is read up to a character that stops it.** -/
theorem leadingInt_append_cons {c : Char} (hc : Stops c) (s rest : List Char) :
    leadingInt (s ++ c :: rest) = leadingInt s := by
  unfold leadingInt leadingNat
  dsimp only
  rw [dropWhile_append_cons hc.space, sign_append_cons hc, magnitude_append_cons hc,
    takeWhile_append_cons hc.digit]

theorem leadingInt_append_joined (s : List Char) (fs : List (List Char)) :
    leadingInt (s ++ joined ',' fs) = leadingInt s := by
  cases fs with
  | nil => rw [joined, List.flatMap_nil, List.append_nil]
  | cons f fs => exact leadingInt_append_cons stops_comma s _

/-! ### Cut texts -/

theorem dropWhile_take {p : Char → Bool} (s : List Char) (n : ℕ) :
    ∃ m, (s.take n).dropWhile p = (s.dropWhile p).take m := by
  induction s generalizing n with
  | nil => exact ⟨0, by simp⟩
  | cons a s ih =>
    cases n with
    | zero => exact ⟨0, by simp⟩
    | succ n =>
      rw [List.take_succ_cons, List.dropWhile_cons, List.dropWhile_cons]
      split_ifs
      · exact ih n
      · exact ⟨n + 1, rfl⟩

theorem sign_cases (s : List Char) : sign s = 1 ∨ sign s = -1 := by
  unfold sign
  split_ifs
  · exact Or.inr rfl
  · exact Or.inl rfl

/-- A number that is cut keeps its sign. -/
theorem leadingInt_take {s : List Char} {n : ℕ} {a b : ℤ} (ha : leadingInt (s.take n) = some a)
    (hb : leadingInt s = some b) : (0 ≤ a ∧ 0 ≤ b) ∨ (a ≤ 0 ∧ b ≤ 0) := by
  unfold leadingInt at ha hb
  obtain ⟨m, hm⟩ := dropWhile_take s n
  rw [hm] at ha
  obtain ⟨i, hi, rfl⟩ := Option.map_eq_some_iff.mp ha
  obtain ⟨j, -, rfl⟩ := Option.map_eq_some_iff.mp hb
  have hsign : sign ((s.dropWhile isSpace).take m) = sign (s.dropWhile isSpace) := by
    cases m with
    | zero =>
      rw [List.take_zero] at hi
      cases hi
    | succ m =>
      unfold sign
      cases s.dropWhile isSpace with
      | nil => rfl
      | cons c t => rfl
  rw [hsign]
  rcases sign_cases (s.dropWhile isSpace) with h | h
  · rw [h]
    exact Or.inl ⟨by omega, by omega⟩
  · rw [h]
    exact Or.inr ⟨by omega, by omega⟩

end Fields
