import Mathlib.Data.Multiset.AddSub
import Mathlib.Order.Defs.LinearOrder
import RoverSwarm.Lib.Ranking

/-!
# MaxHeap — a binary heap in a list, and the `k` least entries of a stream

The heap is steered by a comparison that need not be an order: all that is asked of it is that it
does not contradict a key (`Respects`) on the entries at hand, so that a comparison with a tolerance
will do where the key tells only entries apart that are not within it.  `Keeps key k seen kept` says
that of all entries seen so far the `k` of least key were kept; a search that gives up parts of its
input maintains it by `Keeps.skip`.
-/

namespace MaxHeap

variable {α κ : Type*} [LinearOrder κ] {lt : α → α → Bool} {key : α → κ} {s : Set α}

/-! ### The heap -/

/-- Move the hole at `i` towards the root, until the entry above it is not less than `tmp`. -/
def floatUp (lt : α → α → Bool) : ℕ → List α → ℕ → α → List α
  | 0, heap, i, tmp => heap.set i tmp
  | fuel + 1, heap, i, tmp =>
    if 0 < i then
      match heap[(i - 1) / 2]? with
      | some a =>
        if lt a tmp then floatUp lt fuel (heap.set i a) ((i - 1) / 2) tmp else heap.set i tmp
      | none => heap.set i tmp
    else heap.set i tmp

/-- The child to go down to. -/
def largerChild (lt : α → α → Bool) (heap : List α) (i : ℕ) : ℕ :=
  match heap[2 * i + 1]?, heap[2 * i + 2]? with
  | some a, some b => if lt a b then 2 * i + 2 else 2 * i + 1
  | _, _ => 2 * i + 1

/-- Move the hole at `i` towards the leaves, until `tmp` is not less than the entry below it. -/
def moveDown (lt : α → α → Bool) : ℕ → List α → ℕ → α → List α
  | 0, heap, i, tmp => heap.set i tmp
  | fuel + 1, heap, i, tmp =>
    match heap[largerChild lt heap i]? with
    | some a =>
      if lt tmp a then moveDown lt fuel (heap.set i a) (largerChild lt heap i) tmp
      else heap.set i tmp
    | none => heap.set i tmp

def push (lt : α → α → Bool) (heap : List α) (a : α) : List α :=
  floatUp lt heap.length (heap ++ [a]) heap.length a

def pop (lt : α → α → Bool) (heap : List α) : List α :=
  match heap.getLast? with
  | some last => moveDown lt heap.length (heap.dropLast.set 0 last) 0 last
  | none => []

/-- On the entries in `s`, the comparison does not contradict the key. -/
structure Respects (lt : α → α → Bool) (key : α → κ) (s : Set α) : Prop where
  le_of_lt : ∀ a ∈ s, ∀ b ∈ s, lt a b = true → key a ≤ key b
  le_of_not_lt : ∀ a ∈ s, ∀ b ∈ s, lt a b = false → key b ≤ key a

/-- No entry has a greater key than the one above it. -/
def Ordered (key : α → κ) (heap : List α) : Prop :=
  ∀ (i : ℕ) (a b : α), 0 < i → heap[(i - 1) / 2]? = some a → heap[i]? = some b → key b ≤ key a

theorem ordered_nil : Ordered key ([] : List α) := by
  intro i a b _ ha
  simp at ha

/-- The first entry has the greatest key. -/
theorem Ordered.le_head {heap : List α} {a : α} (h : Ordered key heap) (ha : heap[0]? = some a) :
    ∀ (i : ℕ) (b : α), heap[i]? = some b → key b ≤ key a := by
  intro i
  induction i using Nat.strong_induction_on with
  | _ i ih =>
    intro b hb
    rcases Nat.eq_zero_or_pos i with rfl | hpos
    · rw [ha] at hb
      cases hb
      exact le_refl _
    · have hlt : i < heap.length := (List.getElem?_eq_some_iff.mp hb).1
      have hparent : heap[(i - 1) / 2]? = some heap[(i - 1) / 2] :=
        List.getElem?_eq_getElem (by omega)
      exact (h i _ _ hpos hparent hb).trans (ih _ (by omega) _ hparent)

/-! ### Moving the hole -/

section Hole

variable {heap : List α} {i j : ℕ} {a b tmp : α}

/-- What stands where after one entry was written. -/
theorem getElem?_set_cases (h : (heap.set i a)[j]? = some b) :
    (j = i ∧ b = a) ∨ (j ≠ i ∧ heap[j]? = some b) := by
  by_cases hj : i = j
  · subst hj
    have hlen := (List.getElem?_eq_some_iff.mp h).1
    rw [List.length_set] at hlen
    rw [List.getElem?_set_self hlen] at h
    exact Or.inl ⟨rfl, (Option.some.inj h).symm⟩
  · rw [List.getElem?_set_ne hj] at h
    exact Or.inr ⟨Ne.symm hj, h⟩

/-- Filling a hole with an entry and its place with `tmp` permutes the entries. -/
theorem set_set_perm (hi : i < heap.length) (hne : j ≠ i) (ha : heap[j]? = some a) (tmp : α) :
    ((heap.set i a).set j tmp).Perm (heap.set i tmp) := by
  obtain ⟨hj, hget⟩ := List.getElem?_eq_some_iff.mp ha
  have hperm := @List.set_set_perm α (heap.set i tmp) i j
    (by rwa [List.length_set]) (by rwa [List.length_set])
  rwa [List.getElem_set_self, List.getElem_set_ne (Ne.symm hne), List.set_set, hget] at hperm

theorem floatUp_perm (fuel : ℕ) (hi : i < heap.length) :
    (floatUp lt fuel heap i tmp).Perm (heap.set i tmp) := by
  induction fuel generalizing heap i with
  | zero => exact List.Perm.refl _
  | succ fuel ih =>
    unfold floatUp
    by_cases hpos : 0 < i
    · rw [if_pos hpos]
      cases ha : heap[(i - 1) / 2]? with
      | none => exact List.Perm.refl _
      | some a =>
        dsimp only
        split_ifs with hlt
        · exact (ih (by rw [List.length_set]; omega)).trans
            (set_set_perm hi (by omega) ha tmp)
        · exact List.Perm.refl _
    · rw [if_neg hpos]

theorem lt_largerChild (lt : α → α → Bool) (heap : List α) (i : ℕ) : i < largerChild lt heap i := by
  unfold largerChild
  split
  · split_ifs <;> omega
  · omega

theorem moveDown_perm (fuel : ℕ) (hi : i < heap.length) :
    (moveDown lt fuel heap i tmp).Perm (heap.set i tmp) := by
  induction fuel generalizing heap i with
  | zero => exact List.Perm.refl _
  | succ fuel ih =>
    unfold moveDown
    cases ha : heap[largerChild lt heap i]? with
    | none => exact List.Perm.refl _
    | some a =>
      dsimp only
      split_ifs with hlt
      · have hchild : largerChild lt heap i < heap.length := (List.getElem?_eq_some_iff.mp ha).1
        have hne := lt_largerChild lt heap i
        exact (ih (by rwa [List.length_set])).trans (set_set_perm hi (by omega) ha tmp)
      · exact List.Perm.refl _

/-- Every entry that does not touch the hole is in order, and the hole's children are with the
hole's parent. -/
structure OrderedExcept (key : α → κ) (heap : List α) (hole : ℕ) : Prop where
  off : ∀ i a b, 0 < i → i ≠ hole → (i - 1) / 2 ≠ hole → heap[(i - 1) / 2]? = some a →
    heap[i]? = some b → key b ≤ key a
  across : ∀ i a b, 0 < i → 0 < hole → (i - 1) / 2 = hole → heap[(hole - 1) / 2]? = some a →
    heap[i]? = some b → key b ≤ key a

/-- The hole filled with an entry that is in order with its neighbours. -/
theorem OrderedExcept.fill (h : OrderedExcept key heap i)
    (habove : ∀ a, 0 < i → heap[(i - 1) / 2]? = some a → key tmp ≤ key a)
    (hbelow : ∀ j b, 0 < j → (j - 1) / 2 = i → heap[j]? = some b → key b ≤ key tmp) :
    Ordered key (heap.set i tmp) := by
  intro j a b hj ha hb
  rcases getElem?_set_cases ha with ⟨hparent, rfl⟩ | ⟨hparent, hget⟩
  · rcases getElem?_set_cases hb with ⟨rfl, -⟩ | ⟨-, hb⟩
    · omega
    · exact hbelow j b hj hparent hb
  · rcases getElem?_set_cases hb with ⟨rfl, rfl⟩ | ⟨hne, hb⟩
    · exact habove a hj hget
    · exact h.off j a b hj hne hparent hget hb

/-- The hole goes up. -/
theorem OrderedExcept.up (h : OrderedExcept key heap i) (hi : 0 < i)
    (ha : heap[(i - 1) / 2]? = some a) : OrderedExcept key (heap.set i a) ((i - 1) / 2) := by
  have habove : ∀ b, 0 < (i - 1) / 2 → heap[((i - 1) / 2 - 1) / 2]? = some b → key a ≤ key b :=
    fun b hpos hb => h.off ((i - 1) / 2) b a hpos (by omega) (by omega) hb ha
  constructor
  · intro j b c hj hne hparent hb hc
    rcases getElem?_set_cases hc with ⟨rfl, -⟩ | ⟨hhole, hc'⟩
    · exact absurd rfl hparent
    · rcases getElem?_set_cases hb with ⟨hmid, rfl⟩ | ⟨hmid, hb'⟩
      · exact h.across j b c hj hi hmid ha hc'
      · exact h.off j b c hj hhole hmid hb' hc'
  · intro j b c hj hpos hparent hb hc
    have habove' : heap[((i - 1) / 2 - 1) / 2]? = some b := by
      rcases getElem?_set_cases hb with ⟨hmid, -⟩ | ⟨-, hb'⟩
      · omega
      · exact hb'
    rcases getElem?_set_cases hc with ⟨-, rfl⟩ | ⟨hhole, hc'⟩
    · exact habove b hpos habove'
    · have hle : key c ≤ key a := h.off j a c hj hhole (by omega) (by rwa [hparent]) hc'
      exact hle.trans (habove b hpos habove')

/-- The hole goes down to a child that is not below its sibling. -/
theorem OrderedExcept.down (h : OrderedExcept key heap i) (hi : i < heap.length)
    (hj : 0 < j) (hchild : (j - 1) / 2 = i) (ha : heap[j]? = some a)
    (hsibling : ∀ l b, 0 < l → (l - 1) / 2 = i → heap[l]? = some b → key b ≤ key a)
    (habove : ∀ b, 0 < i → heap[(i - 1) / 2]? = some b → key a ≤ key b) :
    OrderedExcept key (heap.set i a) j := by
  constructor
  · intro l b c hl hne hparent hb hc
    rcases getElem?_set_cases hb with ⟨hmid, rfl⟩ | ⟨hmid, hb'⟩
    · rcases getElem?_set_cases hc with ⟨rfl, -⟩ | ⟨-, hc'⟩
      · omega
      · exact hsibling l c hl hmid hc'
    · rcases getElem?_set_cases hc with ⟨rfl, rfl⟩ | ⟨hhole, hc'⟩
      · exact habove b hl hb'
      · exact h.off l b c hl hhole hmid hb' hc'
  · intro l b c hl _ hparent hb hc
    rw [hchild, List.getElem?_set_self hi] at hb
    cases hb
    rcases getElem?_set_cases hc with ⟨rfl, -⟩ | ⟨hhole, hc'⟩
    · omega
    · exact h.off l a c hl hhole (by omega) (by rwa [hparent]) hc'

/-- Writing an entry of `s` leaves all entries in `s`. -/
theorem mem_set (hs : ∀ b ∈ heap, b ∈ s) (ha : a ∈ s) : ∀ b ∈ heap.set i a, b ∈ s := by
  intro b hb
  rcases List.mem_or_eq_of_mem_set hb with hb | rfl
  · exact hs b hb
  · exact ha

theorem floatUp_ordered (hlt : Respects lt key s) {fuel : ℕ} (hfuel : i ≤ fuel)
    (hs : ∀ b ∈ heap, b ∈ s) (htmp : tmp ∈ s) (h : OrderedExcept key heap i)
    (hbelow : ∀ j b, 0 < j → (j - 1) / 2 = i → heap[j]? = some b → key b ≤ key tmp) :
    Ordered key (floatUp lt fuel heap i tmp) := by
  induction fuel generalizing heap i with
  | zero => exact h.fill (fun a hi => by omega) hbelow
  | succ fuel ih =>
    unfold floatUp
    by_cases hpos : 0 < i
    · rw [if_pos hpos]
      cases ha : heap[(i - 1) / 2]? with
      | none =>
        exact h.fill (fun a _ hget => by rw [ha] at hget; cases hget) hbelow
      | some a =>
        have hmem : a ∈ s := hs a (List.mem_of_getElem? ha)
        dsimp only
        split_ifs with hless
        · -- the entry above comes down, and everything below it with it
          have hle : key a ≤ key tmp := hlt.le_of_lt a hmem tmp htmp hless
          refine ih (by omega) (mem_set hs hmem) (h.up hpos ha) ?_
          intro j b hj hparent hb
          rcases getElem?_set_cases hb with ⟨-, rfl⟩ | ⟨hhole, hb⟩
          · exact hle
          · exact (h.off j a b hj hhole (by omega) (by rwa [hparent]) hb).trans hle
        · refine h.fill (fun b _ hb => ?_) hbelow
          rw [ha] at hb
          cases hb
          exact hlt.le_of_not_lt _ hmem _ htmp (by simpa using hless)
    · rw [if_neg hpos]
      exact h.fill (fun a hi => absurd hi hpos) hbelow

theorem largerChild_parent (lt : α → α → Bool) (heap : List α) (i : ℕ) :
    (largerChild lt heap i - 1) / 2 = i := by
  unfold largerChild
  split
  · split_ifs <;> omega
  · omega

/-- The child that is chosen is not below the other one. -/
theorem le_largerChild (hlt : Respects lt key s) (hs : ∀ b ∈ heap, b ∈ s)
    (ha : heap[largerChild lt heap i]? = some a) :
    ∀ j b, 0 < j → (j - 1) / 2 = i → heap[j]? = some b → key b ≤ key a := by
  intro j b hj hparent hb
  unfold largerChild at ha
  have hcases : j = 2 * i + 1 ∨ j = 2 * i + 2 := by omega
  split at ha
  case h_1 x y hx hy =>
    have hxs : x ∈ s := hs x (List.mem_of_getElem? hx)
    have hys : y ∈ s := hs y (List.mem_of_getElem? hy)
    split_ifs at ha with hless
    · rw [hy] at ha
      cases ha
      rcases hcases with rfl | rfl
      · rw [hx] at hb
        cases hb
        exact hlt.le_of_lt _ hxs _ hys hless
      · rw [hy] at hb
        cases hb
        exact le_refl _
    · rw [hx] at ha
      cases ha
      rcases hcases with rfl | rfl
      · rw [hx] at hb
        cases hb
        exact le_refl _
      · rw [hy] at hb
        cases hb
        exact hlt.le_of_not_lt _ hxs _ hys (by simpa using hless)
  case h_2 hnone =>
    rcases hcases with rfl | rfl
    · rw [ha] at hb
      cases hb
      exact le_refl _
    · exact absurd hb (hnone a b ha)

theorem moveDown_ordered (hlt : Respects lt key s) {fuel : ℕ} (hfuel : heap.length ≤ i + fuel)
    (hs : ∀ b ∈ heap, b ∈ s) (htmp : tmp ∈ s) (hi : i < heap.length) (h : OrderedExcept key heap i)
    (habove : ∀ a, 0 < i → heap[(i - 1) / 2]? = some a → key tmp ≤ key a) :
    Ordered key (moveDown lt fuel heap i tmp) := by
  induction fuel generalizing heap i with
  | zero => omega
  | succ fuel ih =>
    unfold moveDown
    have hparent := largerChild_parent lt heap i
    have hlarger := lt_largerChild lt heap i
    cases ha : heap[largerChild lt heap i]? with
    | none =>
      refine h.fill habove fun j b hj hchild hb => ?_
      -- without a left child there is no right one either
      have hlen : heap.length ≤ largerChild lt heap i := List.getElem?_eq_none_iff.mp ha
      have hlt : j < heap.length := (List.getElem?_eq_some_iff.mp hb).1
      unfold largerChild at ha hlen
      split at ha
      case h_1 x y hx hy =>
        split_ifs at ha with hless
        · rw [hy] at ha
          cases ha
        · rw [hx] at ha
          cases ha
      case h_2 =>
        have hfirst : heap.length ≤ 2 * i + 1 := List.getElem?_eq_none_iff.mp ha
        omega
    | some a =>
      dsimp only
      have hmem : a ∈ s := hs a (List.mem_of_getElem? ha)
      have hchildren := le_largerChild hlt hs ha
      have hchild : largerChild lt heap i < heap.length := (List.getElem?_eq_some_iff.mp ha).1
      split_ifs with hless
      · have hle : key tmp ≤ key a := hlt.le_of_lt _ htmp _ hmem hless
        refine ih (by rw [List.length_set]; omega) (mem_set hs hmem) (by rwa [List.length_set])
          (h.down hi (by omega) hparent ha hchildren fun b hpos hb => ?_) ?_
        · exact h.across _ b a (by omega) hpos hparent hb ha
        · intro b hpos hb
          rw [hparent, List.getElem?_set_self hi] at hb
          cases hb
          exact hle
      · refine h.fill habove fun j b hj hchild hb => ?_
        exact (hchildren j b hj hchild hb).trans
          (hlt.le_of_not_lt _ htmp _ hmem (by simpa using hless))

end Hole

/-! ### The operations -/

section Operations

variable {heap : List α} {a : α}

theorem push_perm (heap : List α) (a : α) : (push lt heap a).Perm (a :: heap) := by
  unfold push
  refine (floatUp_perm _ (by simp)).trans ?_
  rw [List.set_append_right _ _ (le_refl _), Nat.sub_self, List.set_cons_zero]
  exact List.perm_append_comm

theorem push_ordered (hlt : Respects lt key s) (hs : ∀ b ∈ heap, b ∈ s) (h : Ordered key heap)
    (ha : a ∈ s) : Ordered key (push lt heap a) := by
  have hlast : ∀ j b, heap.length < j → (heap ++ [a])[j]? = some b → False := by
    intro j b hj hb
    have hlen := (List.getElem?_eq_some_iff.mp hb).1
    rw [List.length_append, List.length_singleton] at hlen
    omega
  have hs' : ∀ b ∈ heap ++ [a], b ∈ s := by
    intro b hb
    rcases List.mem_append.mp hb with hb | hb
    · exact hs b hb
    · obtain rfl := List.mem_singleton.mp hb
      exact ha
  refine floatUp_ordered hlt (le_refl _) hs' ha ⟨?_, ?_⟩ ?_
  · intro i b c hi hne hparent hb hc
    rcases Nat.lt_or_ge i heap.length with hlt | hge
    · rw [List.getElem?_append_left (by omega)] at hb hc
      exact h i b c hi hb hc
    · exact absurd hc (fun hc => hlast i c (by omega) hc)
  · intro i b c hi hpos hparent hb hc
    exact absurd hc (fun hc => hlast i c (by omega) hc)
  · intro j b hj hparent hb
    exact absurd hb (fun hb => hlast j b (by omega) hb)

/-- The last entry takes the place of the first, which is gone. -/
theorem pop_perm {rest : List α} : (a :: pop lt (a :: rest)).Perm (a :: rest) := by
  unfold pop
  cases rest using List.reverseRecOn with
  | nil => exact List.Perm.refl _
  | append_singleton rest last =>
    rw [← List.cons_append, List.getLast?_append, List.getLast?_singleton, Option.some_or]
    dsimp only
    rw [List.dropLast_concat]
    refine List.Perm.cons a ((moveDown_perm _ (by simp)).trans ?_)
    simp only [List.set_cons_zero]
    exact (List.perm_append_singleton last rest).symm

theorem pop_ordered (hlt : Respects lt key s) (hs : ∀ b ∈ heap, b ∈ s) (h : Ordered key heap) :
    Ordered key (pop lt heap) := by
  unfold pop
  cases heap using List.reverseRecOn with
  | nil => exact ordered_nil
  | append_singleton rest last =>
    rw [List.getLast?_append, List.getLast?_singleton, Option.some_or]
    dsimp only
    rw [List.dropLast_concat]
    cases rest with
    | nil =>
      intro i b c _ hb
      simp [moveDown, largerChild] at hb
    | cons first rest =>
      rw [List.set_cons_zero]
      have hlast : last ∈ s := hs last (by simp)
      have hs' : ∀ b ∈ last :: rest, b ∈ s := by
        intro b hb
        rcases List.mem_cons.mp hb with rfl | hb
        · exact hlast
        · exact hs b (by simp [hb])
      refine moveDown_ordered hlt (by simp) hs' hlast (by simp) ⟨?_, ?_⟩ ?_
      · intro i b c hi hne hparent hb hc
        have hlen := (List.getElem?_eq_some_iff.mp hc).1
        rw [List.length_cons] at hlen
        obtain ⟨k, rfl⟩ : ∃ k, i = k + 1 := ⟨i - 1, by omega⟩
        obtain ⟨m, hm⟩ : ∃ m, (k + 1 - 1) / 2 = m + 1 := ⟨(k + 1 - 1) / 2 - 1, by omega⟩
        rw [hm, List.getElem?_cons_succ] at hb
        rw [List.getElem?_cons_succ] at hc
        refine h (k + 1) b c hi ?_ ?_
        · rw [hm, List.cons_append, List.getElem?_cons_succ, List.getElem?_append_left (by omega)]
          exact hb
        · rw [List.cons_append, List.getElem?_cons_succ, List.getElem?_append_left (by omega)]
          exact hc
      · intro i b c _ hpos
        exact absurd hpos (Nat.lt_irrefl 0)
      · intro b hpos
        exact absurd hpos (Nat.lt_irrefl 0)

/-- Take the first entry again and again and put it before what was taken. -/
def drain (lt : α → α → Bool) : ℕ → List α → List α → List α
  | 0, _, out => out
  | n + 1, heap, out =>
    match heap[0]? with
    | some a => drain lt n (pop lt heap) (a :: out)
    | none => out

/-- A heap comes out sorted. -/
theorem drain_spec (hlt : Respects lt key s) {n : ℕ} (hn : heap.length = n)
    (hs : ∀ b ∈ heap, b ∈ s) (h : Ordered key heap) {out : List α}
    (hout : out.Pairwise fun a b => key a ≤ key b)
    (hle : ∀ a ∈ heap, ∀ b ∈ out, key a ≤ key b) :
    (drain lt n heap out).Perm (heap ++ out) ∧
      (drain lt n heap out).Pairwise fun a b => key a ≤ key b := by
  induction n generalizing heap out with
  | zero =>
    obtain rfl := List.eq_nil_of_length_eq_zero hn
    exact ⟨List.Perm.refl _, hout⟩
  | succ n ih =>
    cases heap with
    | nil => simp at hn
    | cons a rest =>
      have hperm : (a :: pop lt (a :: rest)).Perm (a :: rest) := pop_perm
      have hhead := h.le_head (a := a) rfl
      have hmem : ∀ b ∈ pop lt (a :: rest), b ∈ a :: rest :=
        fun b hb => hperm.mem_iff.mp (List.mem_cons_of_mem a hb)
      have hlen : (pop lt (a :: rest)).length = n := by simpa using hperm.length_eq.trans hn
      have hcons : (a :: out).Pairwise fun a b => key a ≤ key b :=
        List.pairwise_cons.mpr ⟨fun b hb => hle a List.mem_cons_self b hb, hout⟩
      have hle' : ∀ b ∈ pop lt (a :: rest), ∀ c ∈ a :: out, key b ≤ key c := by
        intro b hb c hc
        rcases List.mem_cons.mp hc with rfl | hc
        · obtain ⟨i, hi⟩ := List.mem_iff_getElem?.mp (hmem b hb)
          exact hhead i b hi
        · exact hle b (hmem b hb) c hc
      obtain ⟨hdrain, hsorted⟩ :=
        ih hlen (fun b hb => hs b (hmem b hb)) (pop_ordered hlt hs h) hcons hle'
      refine ⟨hdrain.trans ?_, hsorted⟩
      exact List.perm_middle.trans (hperm.append_right out)

end Operations

/-! ### The least entries of a stream -/

/-- Of the entries seen, `k` of least key were kept, or all of them. -/
structure Keeps (key : α → κ) (k : ℕ) (seen : Multiset α) (kept : List α) : Prop where
  le : kept.length ≤ k
  split : ∃ rest : Multiset α, seen = (kept : Multiset α) + rest ∧
    (∀ a ∈ kept, ∀ b ∈ rest, key a ≤ key b) ∧ (rest ≠ 0 → kept.length = k)

namespace Keeps

variable {k : ℕ} {seen more : Multiset α} {kept kept' : List α} {a top : α}

theorem nil (key : α → κ) (k : ℕ) : Keeps key k 0 ([] : List α) :=
  ⟨Nat.zero_le k, 0, rfl, by simp, by simp⟩

theorem mem (h : Keeps key k seen kept) (ha : a ∈ kept) : a ∈ seen := by
  obtain ⟨rest, hseen, -, -⟩ := h.split
  rw [hseen]
  exact Multiset.mem_add.mpr (Or.inl ha)

theorem length_eq (h : Keeps key k seen kept) : kept.length = min k seen.card := by
  obtain ⟨rest, hseen, -, hfull⟩ := h.split
  have hle := h.le
  rw [hseen, Multiset.card_add, Multiset.coe_card]
  by_cases hrest : rest = 0
  · subst hrest
    rw [Multiset.card_zero]
    omega
  · have hlen := hfull hrest
    omega

/-- There is room for another entry. -/
theorem push (h : Keeps key k seen kept) (hroom : kept.length < k) (hperm : kept'.Perm (a :: kept)) :
    Keeps key k (a ::ₘ seen) kept' := by
  obtain ⟨rest, hseen, -, hfull⟩ := h.split
  have hrest : rest = 0 := by
    by_contra hne
    have hlen := hfull hne
    omega
  subst hrest
  refine ⟨by rw [hperm.length_eq]; exact hroom, 0, ?_, by simp, by simp⟩
  rw [hseen, Multiset.coe_eq_coe.mpr hperm, ← Multiset.cons_coe]
  simp

/-- An entry takes the place of one with the greatest key. -/
theorem replace (h : Keeps key k seen (top :: kept)) (hfull : (top :: kept).length = k)
    (htop : ∀ b ∈ kept, key b ≤ key top) (hle : key a ≤ key top) (hperm : kept'.Perm (a :: kept)) :
    Keeps key k (a ::ₘ seen) kept' := by
  obtain ⟨rest, hseen, hrest, -⟩ := h.split
  have hlen : kept'.length = k := by rw [hperm.length_eq, ← hfull]; rfl
  refine ⟨hlen.le, top ::ₘ rest, ?_, ?_, fun _ => hlen⟩
  · rw [hseen, Multiset.coe_eq_coe.mpr hperm, ← Multiset.cons_coe, ← Multiset.cons_coe,
      Multiset.cons_add, Multiset.cons_add, Multiset.add_cons]
  · intro b hb c hc
    have hb : key b ≤ key top := by
      rcases List.mem_cons.mp (hperm.mem_iff.mp hb) with rfl | hb
      · exact hle
      · exact htop b hb
    rcases Multiset.mem_cons.mp hc with rfl | hc
    · exact hb
    · exact hb.trans (hrest top List.mem_cons_self c hc)

/-- Entries that are no better than those kept may be left out. -/
theorem skip (h : Keeps key k seen kept) (hfull : kept.length = k)
    (hmore : ∀ a ∈ kept, ∀ b ∈ more, key a ≤ key b) : Keeps key k (seen + more) kept := by
  obtain ⟨rest, hseen, hrest, -⟩ := h.split
  refine ⟨h.le, rest + more, ?_, ?_, fun _ => hfull⟩
  · rw [hseen, Multiset.add_assoc]
  · intro a ha b hb
    rcases Multiset.mem_add.mp hb with hb | hb
    · exact hrest a ha b hb
    · exact hmore a ha b hb

/-- Sorted, the entries that were kept are the first of all entries sorted. -/
theorem isBest (h : Keeps key k seen kept) {es best : List α} (hes : (es : Multiset α) = seen)
    (hbest : best.Perm kept) (hsorted : best.Pairwise fun a b => key a ≤ key b) :
    Ranking.IsBest (fun a => OrderDual.toDual (key a)) k es best := by
  obtain ⟨rest, hseen, hrest, hfull⟩ := h.split
  induction rest using Quotient.inductionOn with
  | _ rest =>
    have hsort := @List.pairwise_mergeSort α (fun a b => decide (key a ≤ key b))
      (fun a b c hab hbc => by simp only [decide_eq_true_eq] at *; exact hab.trans hbc)
      (fun a b => by simpa using le_total (key a) (key b)) rest
    refine ⟨best ++ rest.mergeSort fun a b => decide (key a ≤ key b), ?_, ?_, ?_⟩
    · refine ((hbest.append (List.mergeSort_perm rest _)).trans ?_)
      exact Multiset.coe_eq_coe.mp (by rw [hes, hseen]; rfl)
    · refine List.pairwise_append.mpr ⟨hsorted, hsort.imp fun hab => by simpa using hab, ?_⟩
      intro a ha b hb
      exact hrest a (hbest.mem_iff.mp ha) b
        (by simpa using ((List.mergeSort_perm rest _).mem_iff.mp hb))
    · by_cases hnil : rest = []
      · subst hnil
        rw [List.mergeSort_nil, List.append_nil, List.take_of_length_le]
        rw [hbest.length_eq]
        exact h.le
      · have hlen : best.length = k := by
          rw [hbest.length_eq]
          exact hfull (by simpa using hnil)
        rw [← hlen, List.take_left]

end Keeps

end MaxHeap
