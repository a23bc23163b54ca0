import Mathlib.Data.Finset.Card
import Mathlib.Logic.Function.Basic
import Mathlib.Logic.Relation
import Mathlib.Tactic.SplitIfs

/-!
# Search — breadth first search over lists of successors

A search keeps a queue of nodes to expand, a mark for every node and what it has found.  Expanding a
node looks at the marks of its successors, which are all found; those without a mark get one and
enter the queue.  The marks need not be fresh: what is marked already is never expanded, so the
search ends in any case, and it finds the reachable nodes if no other one among them was marked.
-/

/-- The variables of a search. -/
structure Search (α : Type*) where
  queue : List α
  marked : α → Bool
  found : α → Bool

namespace Search

variable {α : Type*} [DecidableEq α]

/-- Look at a successor. -/
def visit (b : Search α) (x : α) : Search α :=
  if b.marked x then { b with found := Function.update b.found x true }
  else
    { queue := b.queue ++ [x]
      marked := Function.update b.marked x true
      found := Function.update b.found x true }

/-- Expand the nodes of the queue, `fuel` of them at most. -/
def run (next : α → List α) : ℕ → Search α → Search α
  | 0, b => b
  | fuel + 1, b =>
    match b.queue with
    | [] => b
    | a :: queue => ((next a).foldl visit { b with queue }).run next fuel

/-- The nodes whose marks `run` looks at. -/
def looked (next : α → List α) : ℕ → Search α → List α
  | 0, _ => []
  | fuel + 1, b =>
    match b.queue with
    | [] => []
    | a :: queue => next a ++ ((next a).foldl visit { b with queue }).looked next fuel

/-- Reachability along the lists of successors. -/
abbrev Reach (next : α → List α) : α → α → Prop := Relation.ReflTransGen fun a x => x ∈ next a

variable {next : α → List α} {start : α} {b : Search α}

/-! ### What is found -/

@[simp] theorem visit_found (b : Search α) (x : α) :
    (b.visit x).found = Function.update b.found x true := by
  unfold visit
  split_ifs
  · rfl
  · rfl

theorem foldl_visit_found (l : List α) (b : Search α) (y : α) :
    (l.foldl visit b).found y = true ↔ b.found y = true ∨ y ∈ l := by
  induction l generalizing b with
  | nil => simp
  | cons x l ih =>
    rw [List.foldl_cons, ih, visit_found, Function.update_apply, List.mem_cons]
    split_ifs with h
    · simp [h]
    · simp [h]

/-- What is found is what was found and what is looked at. -/
theorem run_found (fuel : ℕ) (b : Search α) (y : α) :
    (b.run next fuel).found y = true ↔ b.found y = true ∨ y ∈ b.looked next fuel := by
  induction fuel generalizing b with
  | zero => simp [run, looked]
  | succ fuel ih =>
    obtain ⟨queue, marked, found⟩ := b
    cases queue with
    | nil => simp [run, looked]
    | cons a queue =>
      show (Search.run next fuel _).found y = true ↔ _ ∨ y ∈ next a ++ _
      rw [ih, foldl_visit_found, List.mem_append, or_assoc]

/-! ### Termination -/

/-- The nodes to expand and those of `nodes` that may still become some. -/
def load (nodes : Finset α) (b : Search α) : ℕ :=
  b.queue.length + (nodes.filter fun x => b.marked x = false).card

theorem load_visit {nodes : Finset α} {x : α} (hx : x ∈ nodes) :
    (b.visit x).load nodes = b.load nodes := by
  unfold visit
  split_ifs with hmarked
  · rfl
  · have hmem : x ∈ nodes.filter fun y => b.marked y = false :=
      Finset.mem_filter.mpr ⟨hx, Bool.not_eq_true _ ▸ hmarked⟩
    have herase : (nodes.filter fun y => Function.update b.marked x true y = false) =
        (nodes.filter fun y => b.marked y = false).erase x := by
      ext y
      rw [Finset.mem_erase, Finset.mem_filter, Finset.mem_filter, Function.update_apply]
      split_ifs with h
      · simp [h]
      · simp [h]
    have hpos := Finset.card_pos.mpr ⟨x, hmem⟩
    unfold load
    rw [herase, Finset.card_erase_of_mem hmem, List.length_append, List.length_singleton]
    omega

theorem load_foldl_visit {nodes : Finset α} {l : List α} (hl : ∀ x ∈ l, x ∈ nodes)
    (b : Search α) : (l.foldl visit b).load nodes = b.load nodes := by
  induction l generalizing b with
  | nil => rfl
  | cons x l ih =>
    obtain ⟨hx, hl⟩ := List.forall_mem_cons.mp hl
    rw [List.foldl_cons, ih hl, load_visit hx]

/-- **The search ends**: every node enters the queue once. -/
theorem run_queue {nodes : Finset α} (hnext : ∀ a, ∀ x ∈ next a, x ∈ nodes) {fuel : ℕ}
    (hload : b.load nodes ≤ fuel) : (b.run next fuel).queue = [] := by
  induction fuel generalizing b with
  | zero =>
    unfold load at hload
    exact List.eq_nil_of_length_eq_zero (show b.queue.length = 0 by omega)
  | succ fuel ih =>
    obtain ⟨queue, marked, found⟩ := b
    cases queue with
    | nil => rfl
    | cons a queue =>
      show (Search.run next fuel _).queue = []
      apply ih
      rw [load_foldl_visit (hnext a)]
      unfold load at hload ⊢
      simp only [List.length_cons] at hload ⊢
      omega

/-! ### What a finished search has found -/

/-- What holds of a search in which every found node waits in the queue or is `done`. -/
structure Invariant (next : α → List α) (start : α) (done : α → Prop) (b : Search α) : Prop where
  origin : b.found start = true
  sound : ∀ x, b.found x = true → Reach next start x
  queue : ∀ x ∈ b.queue, b.found x = true
  marks : ∀ x, Reach next start x → b.marked x = true → b.found x = true
  waiting : ∀ x, b.found x = true → x ∈ b.queue ∨ done x

/-- A node that is marked was found before; one that is not enters the queue. -/
theorem Invariant.visit {done : α → Prop} (h : Invariant next start done b) {x : α}
    (hx : Reach next start x) : Invariant next start done (b.visit x) where
  origin := by
    rw [visit_found, Function.update_apply]
    split_ifs
    · rfl
    · exact h.origin
  sound y hy := by
    rw [visit_found, Function.update_apply] at hy
    split_ifs at hy with heq
    · exact heq ▸ hx
    · exact h.sound y hy
  queue y hy := by
    rw [visit_found, Function.update_apply]
    split_ifs with heq
    · rfl
    · unfold Search.visit at hy
      split_ifs at hy
      · exact h.queue y hy
      · rcases List.mem_append.mp hy with hy | hy
        · exact h.queue y hy
        · exact absurd (List.mem_singleton.mp hy) heq
  marks y hy hmarked := by
    rw [visit_found, Function.update_apply]
    split_ifs with heq
    · rfl
    · unfold Search.visit at hmarked
      split_ifs at hmarked
      · exact h.marks y hy hmarked
      · exact h.marks y hy (by simpa [Function.update_apply, heq] using hmarked)
  waiting y hy := by
    rw [visit_found, Function.update_apply] at hy
    unfold Search.visit
    by_cases hmarked : b.marked x = true
    · rw [if_pos hmarked]
      split_ifs at hy with heq
      · exact h.waiting y (heq ▸ h.marks x hx hmarked)
      · exact h.waiting y hy
    · rw [if_neg hmarked]
      split_ifs at hy with heq
      · exact .inl (List.mem_append_right _ (List.mem_singleton.mpr heq))
      · exact (h.waiting y hy).imp_left (List.mem_append_left _)

theorem Invariant.foldl_visit {done : α → Prop} {l : List α}
    (hl : ∀ x ∈ l, Reach next start x) (h : Invariant next start done b) :
    Invariant next start done (l.foldl Search.visit b) := by
  induction l generalizing b with
  | nil => exact h
  | cons x l ih =>
    obtain ⟨hx, hl⟩ := List.forall_mem_cons.mp hl
    exact ih hl (h.visit hx)

/-- Every found node waits in the queue, or all its successors are found. -/
def Expanding (next : α → List α) (start : α) (b : Search α) : Prop :=
  Invariant next start (fun x => ∀ y ∈ next x, b.found y = true) b

/-- While the node from the queue is expanded, it counts as done. -/
theorem Expanding.expand {a : α} {queue : List α} (h : Expanding next start b)
    (hqueue : b.queue = a :: queue) :
    Expanding next start ((next a).foldl visit { b with queue }) := by
  have ha : Reach next start a := h.sound a (h.queue a (hqueue ▸ List.mem_cons_self))
  have hpop : Invariant next start (fun x => x = a ∨ ∀ y ∈ next x, b.found y = true)
      { b with queue } :=
    { origin := h.origin
      sound := h.sound
      queue := fun x hx => h.queue x (hqueue ▸ List.mem_cons_of_mem _ hx)
      marks := h.marks
      waiting := fun x hx => by
        rcases h.waiting x hx with hmem | hdone
        · rw [hqueue] at hmem
          rcases List.mem_cons.mp hmem with rfl | hmem
          · exact .inr (.inl rfl)
          · exact .inl hmem
        · exact .inr (.inr hdone) }
  have hvisited := hpop.foldl_visit (l := next a) fun x hx => ha.tail hx
  refine ⟨hvisited.origin, hvisited.sound, hvisited.queue, hvisited.marks, fun x hx => ?_⟩
  refine (hvisited.waiting x hx).imp_right fun hdone y hy => ?_
  rw [foldl_visit_found]
  rcases hdone with rfl | hdone
  · exact .inr hy
  · exact .inl (hdone y hy)

theorem Expanding.run (h : Expanding next start b) (fuel : ℕ) :
    Expanding next start (b.run next fuel) := by
  induction fuel generalizing b with
  | zero => exact h
  | succ fuel ih =>
    cases hqueue : b.queue with
    | nil => simpa only [Search.run, hqueue] using h
    | cons a queue => simpa only [Search.run, hqueue] using ih (h.expand hqueue)

omit [DecidableEq α] in
/-- **A finished search has found what is reachable.** -/
theorem Expanding.found_iff (h : Expanding next start b) (hqueue : b.queue = []) (x : α) :
    b.found x = true ↔ Reach next start x := by
  refine ⟨h.sound x, fun hx => ?_⟩
  induction hx with
  | refl => exact h.origin
  | tail _ hstep ih =>
    rcases h.waiting _ ih with hmem | hdone
    · simp [hqueue] at hmem
    · exact hdone _ hstep

end Search
