import Mathlib.Data.List.Induction
import Mathlib.Data.List.Nodup

/-!
# FirstBest — a scan that keeps the best entry so far

The scan starts with a default, and a later entry takes over only if it beats the one that is kept;
so of two entries that nothing tells apart the first one stays.  `beats` is any relation where the
lemma does not ask for a strict order; entries may be incomparable.
-/

namespace FirstBest

variable {α : Type*} (beats : α → α → Prop) [DecidableRel beats]

/-- The better of the entry kept so far and the next one. -/
def better (best x : α) : α := if beats x best then x else best

/-- The entry that the scan of `xs` ends with. -/
def firstBest (start : α) (xs : List α) : α := xs.foldl (better beats) start

variable {beats} {start r : α}

theorem firstBest_append (xs ys : List α) :
    firstBest beats start (xs ++ ys) = firstBest beats (firstBest beats start xs) ys :=
  List.foldl_append

/-- What is kept is the default or one of the entries. -/
theorem firstBest_mem (xs : List α) : firstBest beats start xs ∈ start :: xs := by
  induction xs generalizing start with
  | nil => exact List.mem_cons_self
  | cons x xs ih =>
    show firstBest beats (better beats start x) xs ∈ _
    have h : firstBest beats (better beats start x) xs ∈ better beats start x :: xs := ih
    rcases List.mem_cons.mp h with heq | hmem
    · rw [heq]
      unfold better
      by_cases hx : beats x start
      · rw [if_pos hx]
        exact List.mem_cons_of_mem _ List.mem_cons_self
      · rw [if_neg hx]
        exact List.mem_cons_self
    · exact List.mem_cons_of_mem _ (List.mem_cons_of_mem _ hmem)

/-- Entries that do not beat what is kept change nothing. -/
theorem firstBest_eq_start {xs : List α} (h : ∀ x ∈ xs, ¬ beats x start) :
    firstBest beats start xs = start := by
  induction xs with
  | nil => rfl
  | cons x xs ih =>
    show firstBest beats (better beats start x) xs = start
    rw [better, if_neg (h x List.mem_cons_self)]
    exact ih fun y hy => h y (List.mem_cons_of_mem _ hy)

/-- An entry that beats the default and everything before it, and that nothing behind it beats, is
the one that is kept. -/
theorem firstBest_eq_of_beats {pre post : List α} (hpre : ∀ x ∈ start :: pre, beats r x)
    (hpost : ∀ x ∈ post, ¬ beats x r) : firstBest beats start (pre ++ r :: post) = r := by
  rw [firstBest_append]
  show firstBest beats (better beats (firstBest beats start pre) r) post = r
  rw [better, if_pos (hpre _ (firstBest_mem pre))]
  exact firstBest_eq_start hpost

/-- If the default is not kept, some entry took over, and nothing behind it did. -/
theorem exists_takeover {xs : List α} (h : firstBest beats start xs ≠ start) :
    ∃ pre post, xs = pre ++ firstBest beats start xs :: post ∧
      beats (firstBest beats start xs) (firstBest beats start pre) := by
  induction xs using List.reverseRecOn with
  | nil => exact absurd rfl h
  | append_singleton xs x ih =>
    have hstep : firstBest beats start (xs ++ [x]) = better beats (firstBest beats start xs) x :=
      firstBest_append xs [x]
    rw [hstep] at h ⊢
    by_cases hx : beats x (firstBest beats start xs)
    · rw [better, if_pos hx]
      exact ⟨xs, [], rfl, hx⟩
    · rw [better, if_neg hx] at h ⊢
      obtain ⟨pre, post, heq, hbeats⟩ := ih h
      refine ⟨pre, post ++ [x], ?_, hbeats⟩
      rw [← List.cons_append, ← List.append_assoc, ← heq]

/-- An entry that does not beat the default does not beat what is kept in the end. -/
theorem not_beats_firstBest_of_start [IsTrans α beats] {y : α} (hy : ¬ beats y start)
    (xs : List α) : ¬ beats y (firstBest beats start xs) := by
  induction xs generalizing start with
  | nil => exact hy
  | cons x xs ih =>
    have hstep : ¬ beats y (better beats start x) := by
      unfold better
      by_cases hx : beats x start
      · rw [if_pos hx]
        exact fun h => hy (IsTrans.trans _ _ _ h hx)
      · rw [if_neg hx]
        exact hy
    exact ih hstep

/-- Nothing beats what is kept. -/
theorem not_beats_firstBest [IsStrictOrder α beats] {y : α} {xs : List α}
    (hy : y ∈ start :: xs) : ¬ beats y (firstBest beats start xs) := by
  rcases List.mem_cons.mp hy with rfl | hy
  · exact not_beats_firstBest_of_start (Std.Irrefl.irrefl y) xs
  · obtain ⟨pre, post, rfl⟩ := List.append_of_mem hy
    rw [firstBest_append]
    have hstep : ¬ beats y (better beats (firstBest beats start pre) y) := by
      unfold better
      by_cases h : beats y (firstBest beats start pre)
      · rw [if_pos h]
        exact Std.Irrefl.irrefl y
      · rw [if_neg h]
        exact h
    exact not_beats_firstBest_of_start hstep post

/-- Something took over from the default exactly if some entry beats it. -/
theorem firstBest_ne_start_iff [IsStrictOrder α beats] {xs : List α} :
    firstBest beats start xs ≠ start ↔ ∃ x ∈ xs, beats x start := by
  constructor
  · intro h
    by_contra hnone
    push Not at hnone
    exact h (firstBest_eq_start hnone)
  · rintro ⟨x, hx, hbeats⟩ heq
    have hnot : ¬ beats x (firstBest beats start xs) :=
      not_beats_firstBest (List.mem_cons_of_mem start hx)
    rw [heq] at hnot
    exact hnot hbeats

/-- In a list without repetitions an element is before `r` if it is in front of the place of `r`. -/
theorem idxOf_lt_iff [DecidableEq α] {pre post : List α} (h : (pre ++ r :: post).Nodup) (s : α) :
    (pre ++ r :: post).idxOf s < (pre ++ r :: post).idxOf r ↔ s ∈ pre := by
  have hr : r ∉ pre := fun hmem =>
    (List.nodup_append.mp h).2.2 r hmem r List.mem_cons_self rfl
  have hidx : (pre ++ r :: post).idxOf r = pre.length := by
    rw [List.idxOf_append_of_notMem hr, List.idxOf_cons_self, Nat.add_zero]
  rw [hidx]
  by_cases hs : s ∈ pre
  · rw [List.idxOf_append_of_mem hs]
    exact iff_of_true (List.idxOf_lt_length_of_mem hs) hs
  · rw [List.idxOf_append_of_notMem hs]
    exact iff_of_false (by omega) hs

end FirstBest
