import Mathlib.Data.List.Basic

/-!
# Walk — loops over a list that may fail

What is known of the single turns of a loop once it is through, or has failed.
-/

namespace Walk

variable {α β γ : Type*}

/-- Every result of the walk is that of some entry. -/
theorem mem_of_mapM {f : α → Option β} {l : List α} {l' : List β}
    (h : l.mapM f = some l') {b : β} (hb : b ∈ l') : ∃ a ∈ l, f a = some b := by
  induction l generalizing l' with
  | nil =>
    obtain rfl : [] = l' := by simpa using h
    exact absurd hb List.not_mem_nil
  | cons a l ih =>
    simp only [List.mapM_cons, Option.bind_eq_bind, Option.bind_eq_some_iff, Option.pure_def,
      Option.some.injEq] at h
    obtain ⟨b', hb', l₁, hl₁, rfl⟩ := h
    rcases List.mem_cons.mp hb with rfl | hb
    · exact ⟨a, List.mem_cons_self, hb'⟩
    · obtain ⟨a', ha', hf⟩ := ih hl₁ hb
      exact ⟨a', List.mem_cons_of_mem _ ha', hf⟩

/-- Every entry has its result. -/
theorem exists_mem_of_mapM {f : α → Option β} {l : List α} {l' : List β}
    (h : l.mapM f = some l') {a : α} (ha : a ∈ l) : ∃ b ∈ l', f a = some b := by
  induction l generalizing l' with
  | nil => exact absurd ha List.not_mem_nil
  | cons a' l ih =>
    simp only [List.mapM_cons, Option.bind_eq_bind, Option.bind_eq_some_iff, Option.pure_def,
      Option.some.injEq] at h
    obtain ⟨b, hb, l₁, hl₁, rfl⟩ := h
    rcases List.mem_cons.mp ha with rfl | ha
    · exact ⟨b, List.mem_cons_self, hb⟩
    · obtain ⟨b', hb', hf⟩ := ih hl₁ ha
      exact ⟨b', List.mem_cons_of_mem _ hb', hf⟩

/-- A walk fails at one of the entries. -/
theorem exists_of_mapM_eq_none {f : α → Option β} {l : List α}
    (h : l.mapM f = none) : ∃ a ∈ l, f a = none := by
  induction l with
  | nil => exact absurd h (by simp)
  | cons a l ih =>
    rw [List.mapM_cons] at h
    cases ha : f a with
    | none => exact ⟨a, List.mem_cons_self, ha⟩
    | some b =>
      cases hl : l.mapM f with
      | none =>
        obtain ⟨a', ha', hf⟩ := ih hl
        exact ⟨a', List.mem_cons_of_mem _ ha', hf⟩
      | some l' =>
        rw [ha, hl] at h
        exact absurd h (by simp)

/-- A walk that fails nowhere collects the results. -/
theorem mapM_eq_some_map {f : α → Option β} {g : α → β} {l : List α}
    (h : ∀ a ∈ l, f a = some (g a)) : l.mapM f = some (l.map g) := by
  induction l with
  | nil => rfl
  | cons a l ih =>
    rw [List.mapM_cons, h a List.mem_cons_self,
      ih fun a' ha' => h a' (List.mem_cons_of_mem _ ha')]
    rfl

/-- A loop that carries a value along fails at one of the entries, for the value that it has carried
there. -/
theorem exists_of_foldlM_eq_none {f : β → α → Option β} {l : List α} {b : β}
    (h : l.foldlM f b = none) :
    ∃ pre a post b', l = pre ++ a :: post ∧ pre.foldlM f b = some b' ∧ f b' a = none := by
  induction l generalizing b with
  | nil => exact absurd h (by simp)
  | cons a l ih =>
    rw [List.foldlM_cons] at h
    cases ha : f b a with
    | none => exact ⟨[], a, l, b, rfl, rfl, ha⟩
    | some b₁ =>
      rw [ha] at h
      obtain ⟨pre, a', post, b', hl, hpre, hf⟩ := ih h
      refine ⟨a :: pre, a', post, b', by rw [hl, List.cons_append], ?_, hf⟩
      rw [List.foldlM_cons, ha]
      exact hpre

/-- A loop that comes through carries what the loop without failures carries. -/
theorem foldl_of_foldlM {f : β → α → Option β} {g : β → α → β}
    (hf : ∀ b a b', f b a = some b' → g b a = b') {l : List α} {b b' : β}
    (h : l.foldlM f b = some b') : l.foldl g b = b' := by
  induction l generalizing b with
  | nil => exact Option.some.inj h
  | cons a l ih =>
    rw [List.foldlM_cons, Option.bind_eq_bind] at h
    obtain ⟨b₁, hb₁, hl⟩ := Option.bind_eq_some_iff.mp h
    rw [List.foldl_cons, hf b a b₁ hb₁]
    exact ih hl

/-- **Invariant rule**: a loop whose turns do not fail while they keep an invariant comes through,
and keeps it. -/
theorem exists_foldlM (I : β → Prop) {f : β → α → Option β} {l : List α}
    (hstep : ∀ a ∈ l, ∀ b, I b → ∃ b', f b a = some b' ∧ I b') {b : β} (hb : I b) :
    ∃ b', l.foldlM f b = some b' ∧ I b' := by
  induction l generalizing b with
  | nil => exact ⟨b, rfl, hb⟩
  | cons a l ih =>
    obtain ⟨b₁, hb₁, hI⟩ := hstep a List.mem_cons_self b hb
    obtain ⟨b', hl, hI'⟩ := ih (fun a' ha' => hstep a' (List.mem_cons_of_mem a ha')) hI
    refine ⟨b', ?_, hI'⟩
    rw [List.foldlM_cons, hb₁]
    exact hl

/-- Walking the values of a function with their positions in the list is walking the list. -/
theorem mapM_zipIdx_map (f : α → β) (g : β → Option α → Option γ) (l : List α) :
    (l.map f).zipIdx.mapM (fun o => g o.1 l[o.2]?) = l.mapM fun a => g (f a) (some a) := by
  have h : ∀ pre rest : List α, (((rest.map f).zipIdx pre.length).mapM fun o =>
      g o.1 (pre ++ rest)[o.2]?) = rest.mapM fun a => g (f a) (some a) := by
    intro pre rest
    induction rest generalizing pre with
    | nil => rfl
    | cons a rest ih =>
      have hhere : (pre ++ a :: rest)[pre.length]? = some a := by simp
      have hnext := ih (pre ++ [a])
      rw [List.append_assoc, List.singleton_append, List.length_append, List.length_singleton]
        at hnext
      rw [List.map_cons, List.zipIdx_cons, List.mapM_cons, List.mapM_cons, hnext, hhere]
  exact h [] l

end Walk
