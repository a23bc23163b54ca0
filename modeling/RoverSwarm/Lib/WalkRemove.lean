import Mathlib.Data.List.Chain
import Mathlib.Tactic.SplitIfs

/-!
# WalkRemove — a list that shrinks while it is walked

A loop walks a list by position, works on the entry it stands at, and may then remove it from the
list it is walking.  After that the next entry has moved into the place of the removed one, and the
walk steps over it.  This does no harm exactly if the entry stepped over would have been left as it
is (`walk_eq`, `exists_not_finished`).
-/

namespace WalkRemove

variable {α : Type*} (visit : α → α) (drop : α → Bool) (same : α → α → Bool)

/-- The list is `done ++ rest` and the walk stands in front of `rest`.  The entry there is replaced
by its visit.  If that is to be dropped, the first entry of the list that is the same is removed. -/
def walk : List α → List α → List α
  | done, [] => done
  | done, [x] =>
    if drop (visit x) then (done ++ [visit x]).eraseP (same (visit x)) else done ++ [visit x]
  | done, x :: y :: rest =>
    if drop (visit x) then walk ((done ++ [visit x]).eraseP (same (visit x)) ++ [y]) rest
    else walk (done ++ [visit x]) (y :: rest)

/-- A visit leaves the entry as it is. -/
def Finished (x : α) : Prop := visit x = x ∧ drop x = false

/-- No entry is stepped over that is not finished. -/
def SkipsFinished (rest : List α) : Prop :=
  rest.IsChain fun x y => drop (visit x) = true → Finished visit drop y

variable {visit drop same} {done rest : List α}

theorem eraseP_concat (hrefl : ∀ x, same x x = true)
    (hsame : ∀ x y, same x y = true → drop x = true → drop y = true)
    (hdone : ∀ x ∈ done, drop x = false) {x : α} (hx : drop x = true) :
    (done ++ [x]).eraseP (same x) = done := by
  have hnone : ∀ y ∈ done, ¬ same x y = true := fun y hy h => by
    have hy' := hsame x y h hx
    rw [hdone y hy] at hy'
    exact Bool.false_ne_true hy'
  rw [List.eraseP_append_right _ hnone, List.eraseP_cons_of_pos (hrefl x), List.append_nil]

/-- **Harmless walks**: every entry is visited, or need not be, and what is to be dropped is. -/
theorem walk_eq (hrefl : ∀ x, same x x = true)
    (hsame : ∀ x y, same x y = true → drop x = true → drop y = true)
    (hdone : ∀ x ∈ done, drop x = false) (h : SkipsFinished visit drop rest) :
    walk visit drop same done rest = done ++ (rest.map visit).filter fun x => !drop x := by
  fun_induction walk visit drop same done rest with
  | case1 done => simp
  | case2 done x hx => rw [eraseP_concat hrefl hsame hdone hx]; simp [hx]
  | case3 done x hx => simp [hx]
  | case4 done x y rest hx ih =>
    rw [eraseP_concat hrefl hsame hdone hx] at ih ⊢
    obtain ⟨hxy, hrest⟩ := List.isChain_cons_cons.mp h
    obtain ⟨hvisit, hkeep⟩ := hxy hx
    have hdone' : ∀ z ∈ done ++ [y], drop z = false := by
      intro z hz
      rcases List.mem_append.mp hz with hz | hz
      · exact hdone z hz
      · rw [List.mem_singleton.mp hz]
        exact hkeep
    rw [ih hdone' hrest.tail, List.map_cons, List.map_cons, hvisit]
    simp [hx, hkeep]
  | case5 done x y rest hx ih =>
    have hdone' : ∀ z ∈ done ++ [visit x], drop z = false := by
      intro z hz
      rcases List.mem_append.mp hz with hz | hz
      · exact hdone z hz
      · rw [List.mem_singleton.mp hz]
        simpa using hx
    rw [ih hdone' (List.isChain_cons_cons.mp h).2, List.map_cons]
    simp [hx]

/-- **Contents**: a walk leaves nothing but entries and their visits. -/
theorem mem_walk {x : α} (hx : x ∈ walk visit drop same done rest) :
    x ∈ done ∨ ∃ y ∈ rest, x = y ∨ x = visit y := by
  fun_induction walk visit drop same done rest with
  | case1 done => exact Or.inl hx
  | case2 done y hy =>
    rcases List.mem_append.mp (List.mem_of_mem_eraseP hx) with hx | hx
    · exact Or.inl hx
    · exact Or.inr ⟨y, List.mem_singleton_self y, Or.inr (List.mem_singleton.mp hx)⟩
  | case3 done y hy =>
    rcases List.mem_append.mp hx with hx | hx
    · exact Or.inl hx
    · exact Or.inr ⟨y, List.mem_singleton_self y, Or.inr (List.mem_singleton.mp hx)⟩
  | case4 done y z rest hy ih =>
    rcases ih hx with hx | ⟨w, hw, hxw⟩
    · rcases List.mem_append.mp hx with hx | hx
      · rcases List.mem_append.mp (List.mem_of_mem_eraseP hx) with hx | hx
        · exact Or.inl hx
        · exact Or.inr ⟨y, List.mem_cons_self, Or.inr (List.mem_singleton.mp hx)⟩
      · -- the entry stepped over is left as it is
        exact Or.inr ⟨z, by simp, Or.inl (List.mem_singleton.mp hx)⟩
    · exact Or.inr ⟨w, by simp [hw], hxw⟩
  | case5 done y z rest hy ih =>
    rcases ih hx with hx | ⟨w, hw, hxw⟩
    · rcases List.mem_append.mp hx with hx | hx
      · exact Or.inl hx
      · exact Or.inr ⟨y, List.mem_cons_self, Or.inr (List.mem_singleton.mp hx)⟩
    · exact Or.inr ⟨w, List.mem_cons_of_mem y hw, hxw⟩

/-- Removing one dropped entry for another leaves as many unfinished ones. -/
theorem countP_eraseP_concat (hrefl : ∀ x, same x x = true)
    (hsame : ∀ x y, same x y = true → drop x = true → drop y = true) {p : α → Bool}
    (hp : ∀ x, drop x = true → p x = true) {x : α} (hx : drop x = true) :
    done.countP p ≤ ((done ++ [x]).eraseP (same x)).countP p := by
  obtain ⟨y, before, after, -, hxy, hlist, herase⟩ :=
    List.exists_of_eraseP (List.mem_append_right done List.mem_cons_self) (hrefl x)
  have hcount := congrArg (List.countP p) hlist
  have hpx := hp x hx
  have hpy := hp y (hsame x y hxy hx)
  rw [herase]
  simp [hpx, hpy] at hcount ⊢
  omega

/-- What was stepped over and is to be dropped stays, or something like it does. -/
theorem countP_le_walk (hrefl : ∀ x, same x x = true)
    (hsame : ∀ x y, same x y = true → drop x = true → drop y = true) {p : α → Bool}
    (hp : ∀ x, drop x = true → p x = true) :
    done.countP p ≤ (walk visit drop same done rest).countP p := by
  fun_induction walk visit drop same done rest with
  | case1 done => exact le_rfl
  | case2 done x hx => exact countP_eraseP_concat hrefl hsame hp hx
  | case3 done x hx => simp
  | case4 done x y rest hx ih =>
    have herase : done.countP p ≤ ((done ++ [visit x]).eraseP (same (visit x))).countP p :=
      countP_eraseP_concat hrefl hsame hp hx
    rw [List.countP_append] at ih
    omega
  | case5 done x y rest hx ih =>
    rw [List.countP_append] at ih
    omega

open Classical in
/-- **Harmful walks** leave an entry that is not finished. -/
theorem exists_not_finished (hrefl : ∀ x, same x x = true)
    (hsame : ∀ x y, same x y = true → drop x = true → drop y = true)
    (h : ¬ SkipsFinished visit drop rest) :
    ∃ x ∈ walk visit drop same done rest, ¬ Finished visit drop x := by
  have hdrop : ∀ x, drop x = true → decide (¬ Finished visit drop x) = true := by
    intro x hx
    refine decide_eq_true fun hfinished => ?_
    rw [hfinished.2] at hx
    exact Bool.false_ne_true hx
  fun_induction walk visit drop same done rest with
  | case1 done => exact absurd List.isChain_nil h
  | case2 done x hx => exact absurd (List.isChain_singleton x) h
  | case3 done x hx => exact absurd (List.isChain_singleton x) h
  | case4 done x y rest hx ih =>
    by_cases hy : Finished visit drop y
    · -- the entry stepped over is finished, so the harm is done later
      refine ih fun hrest => h (List.isChain_cons_cons.mpr ⟨fun _ => hy, ?_⟩)
      cases rest with
      | nil => exact List.isChain_singleton y
      | cons z rest =>
        refine List.isChain_cons_cons.mpr ⟨fun hdropped => ?_, hrest⟩
        rw [hy.1, hy.2] at hdropped
        exact absurd hdropped Bool.false_ne_true
    · have hcount : ((done ++ [visit x]).eraseP (same (visit x)) ++ [y]).countP _ ≤
          (walk visit drop same _ rest).countP _ := countP_le_walk hrefl hsame hdrop
      have hone : [y].countP (fun x => decide (¬ Finished visit drop x)) = 1 := by simp [hy]
      rw [List.countP_append, hone] at hcount
      obtain ⟨z, hz, hzf⟩ := List.countP_pos_iff.mp (lt_of_lt_of_le (Nat.succ_pos _) hcount)
      exact ⟨z, hz, of_decide_eq_true hzf⟩
  | case5 done x y rest hx ih =>
    exact ih fun hrest => h (List.isChain_cons_cons.mpr ⟨fun hdropped => absurd hdropped hx, hrest⟩)

end WalkRemove
