import Mathlib.Order.Lattice
import Mathlib.Data.List.Pairwise
import Mathlib.Tactic.SplitIfs

/-!
# SortedDict — finite maps with their keys in order

The ordered map of a standard library: entries in strictly increasing order of their keys, so a
map is determined by its entries, its first and last keys are the ends of the list, and walking it
visits the keys in order.
-/

/-- A finite map from `κ` to `β`, kept in order of the keys. -/
structure SortedDict (κ β : Type*) [LinearOrder κ] where
  entries : List (κ × β)
  sorted : entries.Pairwise fun a b => a.1 < b.1

namespace SortedDict

variable {κ β : Type*}

/-! ### Deleting while walking -/

/-- Walk the live entries by position and delete those whose key meets `p`.  After a deletion the
next entry has moved into the place of the deleted one, and the walk steps over it. -/
def walkDelete (p : κ → Bool) : List (κ × β) → List (κ × β)
  | [] => []
  | [e] => if p e.1 then [] else [e]
  | e :: e' :: es => if p e.1 then e' :: walkDelete p es else e :: walkDelete p (e' :: es)

theorem walkDelete_sublist (p : κ → Bool) : (es : List (κ × β)) → (walkDelete p es).Sublist es
  | [] => List.Sublist.refl _
  | [e] => by
    rw [walkDelete]
    split_ifs
    · exact List.nil_sublist _
    · exact List.Sublist.refl _
  | e :: e' :: es => by
    rw [walkDelete]
    split_ifs
    · exact ((walkDelete_sublist p es).cons_cons e').cons e
    · exact (walkDelete_sublist p (e' :: es)).cons_cons e

/-- The walk keeps what it is not asked to delete. -/
theorem mem_walkDelete (p : κ → Bool) : {es : List (κ × β)} → {e : κ × β} → e ∈ es →
    p e.1 = false → e ∈ walkDelete p es
  | [e'], e, he, hp => by
    obtain rfl := List.mem_singleton.mp he
    simp [walkDelete, hp]
  | e₁ :: e₂ :: es, e, he, hp => by
    rw [walkDelete]
    rcases List.mem_cons.mp he with rfl | he
    · rw [if_neg (by simp [hp])]
      exact List.mem_cons_self
    · split_ifs
      · rcases List.mem_cons.mp he with rfl | he
        · exact List.mem_cons_self
        · exact List.mem_cons_of_mem _ (mem_walkDelete p he hp)
      · exact List.mem_cons_of_mem _ (mem_walkDelete p he hp)

variable [LinearOrder κ]

instance [DecidableEq β] : DecidableEq (SortedDict κ β) := fun d d' =>
  decidable_of_iff (d.entries = d'.entries) ⟨fun h => by cases d; cases d'; simp_all, congrArg entries⟩

/-! ### Operations -/

def empty : SortedDict κ β := ⟨[], List.Pairwise.nil⟩

instance : EmptyCollection (SortedDict κ β) := ⟨empty⟩

instance : Inhabited (SortedDict κ β) := ⟨empty⟩

/-- Put an entry into its place, over an entry with the same key. -/
def insertEntry (k : κ) (v : β) : List (κ × β) → List (κ × β)
  | [] => [(k, v)]
  | (k', v') :: es =>
    if k < k' then (k, v) :: (k', v') :: es
    else if k = k' then (k, v) :: es
    else (k', v') :: insertEntry k v es

theorem mem_insertEntry {k : κ} {v : β} {es : List (κ × β)} {e : κ × β}
    (h : e ∈ insertEntry k v es) : e = (k, v) ∨ e ∈ es := by
  induction es with
  | nil => simpa [insertEntry] using h
  | cons e' es ih =>
    rw [insertEntry] at h
    split_ifs at h <;> grind

theorem insertEntry_sorted {k : κ} {v : β} {es : List (κ × β)}
    (h : es.Pairwise fun a b => a.1 < b.1) :
    (insertEntry k v es).Pairwise fun a b => a.1 < b.1 := by
  induction es with
  | nil => exact List.pairwise_singleton _ _
  | cons e es ih =>
    obtain ⟨hhead, htail⟩ := List.pairwise_cons.mp h
    rw [insertEntry]
    split_ifs with hlt heq
    · refine List.pairwise_cons.mpr ⟨fun e' he' => ?_, h⟩
      rcases List.mem_cons.mp he' with rfl | he'
      · exact hlt
      · exact lt_trans hlt (hhead e' he')
    · exact List.pairwise_cons.mpr ⟨fun e' he' => heq ▸ hhead e' he', htail⟩
    · refine List.pairwise_cons.mpr ⟨fun e' he' => ?_, ih htail⟩
      rcases mem_insertEntry he' with rfl | he'
      · exact lt_of_le_of_ne (not_lt.mp hlt) (Ne.symm heq)
      · exact hhead e' he'

/-- The map with `v` at `k`. -/
def set (d : SortedDict κ β) (k : κ) (v : β) : SortedDict κ β :=
  ⟨insertEntry k v d.entries, insertEntry_sorted d.sorted⟩

def get? (d : SortedDict κ β) (k : κ) : Option β := d.entries.lookup k

def contains (d : SortedDict κ β) (k : κ) : Bool := (d.get? k).isSome

/-- The map with `v` at `k` unless there is a value already. -/
def setDefault (d : SortedDict κ β) (k : κ) (v : β) : SortedDict κ β :=
  if d.contains k then d else d.set k v

/-- The map with `v` at the new key `k`; `none` if the key is there. -/
def insertNew (d : SortedDict κ β) (k : κ) (v : β) : Option (SortedDict κ β) :=
  if d.contains k then none else some (d.set k v)

/-- Insert the entries one after the other; `none` at the first key that is there already. -/
def insertAll (d : SortedDict κ β) : List (κ × β) → Option (SortedDict κ β)
  | [] => some d
  | (k, v) :: es => (d.insertNew k v).bind fun d' => d'.insertAll es

def filter (d : SortedDict κ β) (p : κ → Bool) : SortedDict κ β :=
  ⟨d.entries.filter fun e => p e.1, d.sorted.filter _⟩

def keys (d : SortedDict κ β) : List κ := d.entries.map Prod.fst

def firstKey? (d : SortedDict κ β) : Option κ := d.entries.head?.map Prod.fst

def lastKey? (d : SortedDict κ β) : Option κ := d.entries.getLast?.map Prod.fst

/-- The map after the walk. -/
def deleteWalking (d : SortedDict κ β) (p : κ → Bool) : SortedDict κ β :=
  ⟨walkDelete p d.entries, d.sorted.sublist (walkDelete_sublist p d.entries)⟩

def size (d : SortedDict κ β) : ℕ := d.entries.length

/-! ### Lookup -/

theorem lookup_cons (k : κ) (e : κ × β) (es : List (κ × β)) :
    (e :: es).lookup k = if k = e.1 then some e.2 else es.lookup k := by
  rw [List.lookup_cons]
  by_cases h : k = e.1
  · rw [if_pos h, beq_iff_eq.mpr h]
  · rw [if_neg h, beq_false_of_ne h]

theorem lookup_insertEntry (k k' : κ) (v : β) (es : List (κ × β)) :
    (insertEntry k v es).lookup k' = if k' = k then some v else es.lookup k' := by
  induction es with
  | nil => rw [insertEntry, lookup_cons]
  | cons e es ih =>
    rw [insertEntry]
    by_cases hlt : k < e.1
    · rw [if_pos hlt, lookup_cons]
    · rw [if_neg hlt]
      by_cases heq : k = e.1
      · rw [if_pos heq, lookup_cons, lookup_cons, ← heq]
        by_cases h : k' = k
        · rw [if_pos h, if_pos h]
        · rw [if_neg h, if_neg h, if_neg h]
      · rw [if_neg heq, lookup_cons, lookup_cons, ih]
        by_cases h : k' = e.1
        · rw [if_pos h, if_pos h, if_neg fun h' => heq (h'.symm.trans h)]
        · rw [if_neg h, if_neg h]

@[simp] theorem get?_empty (k : κ) : (∅ : SortedDict κ β).get? k = none := rfl

theorem get?_set (d : SortedDict κ β) (k k' : κ) (v : β) :
    (d.set k v).get? k' = if k' = k then some v else d.get? k' :=
  lookup_insertEntry k k' v d.entries

/-- Setting a default changes nothing where there is a value. -/
theorem get?_setDefault (d : SortedDict κ β) (k k' : κ) (v : β) :
    (d.setDefault k v).get? k' = if k' = k then some ((d.get? k).getD v) else d.get? k' := by
  unfold setDefault contains
  cases hk : d.get? k with
  | none =>
    rw [if_neg (by simp), get?_set]
    rfl
  | some w =>
    have hc : (if (some w).isSome = true then d else d.set k v) = d := if_pos rfl
    rw [hc]
    split_ifs with h
    · rw [h, hk]
      rfl
    · rfl

@[simp] theorem contains_set (d : SortedDict κ β) (k k' : κ) (v : β) :
    (d.set k v).contains k' = (decide (k' = k) || d.contains k') := by
  rw [contains, get?_set]
  by_cases h : k' = k
  · simp [h]
  · simp [h, contains]

@[simp] theorem contains_empty (k : κ) : (∅ : SortedDict κ β).contains k = false := rfl

theorem lookup_isSome_iff (k : κ) (es : List (κ × β)) :
    (es.lookup k).isSome = true ↔ ∃ e ∈ es, e.1 = k := by
  induction es with
  | nil => simp
  | cons e es ih =>
    rw [lookup_cons]
    by_cases h : k = e.1
    · rw [if_pos h]
      exact iff_of_true rfl ⟨e, List.mem_cons_self, h.symm⟩
    · rw [if_neg h, ih]
      simp only [List.mem_cons, exists_eq_or_imp]
      exact (or_iff_right fun h' => h h'.symm).symm

theorem contains_iff_entries {d : SortedDict κ β} {k : κ} :
    d.contains k = true ↔ ∃ e ∈ d.entries, e.1 = k :=
  lookup_isSome_iff k d.entries

theorem insertNew_eq_some {d d' : SortedDict κ β} {k : κ} {v : β} :
    d.insertNew k v = some d' ↔ d.contains k = false ∧ d' = d.set k v := by
  unfold insertNew
  split_ifs with h
  · simp [h]
  · simp [h, eq_comm]

theorem contains_of_insertAll {d d' : SortedDict κ β} {es : List (κ × β)}
    (h : d.insertAll es = some d') (k : κ) :
    d'.contains k = true ↔ d.contains k = true ∨ ∃ e ∈ es, e.1 = k := by
  induction es generalizing d with
  | nil =>
    obtain rfl : d = d' := by simpa [insertAll] using h
    simp
  | cons e es ih =>
    obtain ⟨d₁, h₁, h₂⟩ := Option.bind_eq_some_iff.mp h
    obtain ⟨-, rfl⟩ := insertNew_eq_some.mp h₁
    simp only [ih h₂, contains_set, List.mem_cons, Bool.or_eq_true, decide_eq_true_iff,
      exists_eq_or_imp]
    rw [or_comm (a := k = e.1), or_assoc, eq_comm (a := k)]

/-- A key above all others goes to the end. -/
theorem insertEntry_of_lt {k : κ} (v : β) {es : List (κ × β)} (h : ∀ e ∈ es, e.1 < k) :
    insertEntry k v es = es ++ [(k, v)] := by
  induction es with
  | nil => rfl
  | cons e es ih =>
    have he := h e List.mem_cons_self
    rw [insertEntry, if_neg he.not_gt, if_neg he.ne', ih fun e' he' => h e' (List.mem_cons_of_mem e he')]
    rfl

theorem insertAll_of_lt (d : SortedDict κ β) {es : List (κ × β)}
    (hes : es.Pairwise fun a b => a.1 < b.1) (h : ∀ a ∈ d.entries, ∀ b ∈ es, a.1 < b.1) :
    ∃ d', d.insertAll es = some d' ∧ d'.entries = d.entries ++ es := by
  induction es generalizing d with
  | nil => exact ⟨d, rfl, (List.append_nil _).symm⟩
  | cons e es ih =>
    obtain ⟨hhead, htail⟩ := List.pairwise_cons.mp hes
    have hbelow : ∀ a ∈ d.entries, a.1 < e.1 := fun a ha => h a ha e List.mem_cons_self
    have hnew : d.contains e.1 = false := by
      refine Bool.eq_false_iff.mpr fun hmem => ?_
      obtain ⟨a, ha, heq⟩ := contains_iff_entries.mp hmem
      exact absurd (hbelow a ha) (heq ▸ lt_irrefl _)
    have hset : (d.set e.1 e.2).entries = d.entries ++ [e] := insertEntry_of_lt e.2 hbelow
    obtain ⟨d', hd', hentries⟩ := ih (d.set e.1 e.2) htail (by
      intro a ha b hb
      rw [hset] at ha
      rcases List.mem_append.mp ha with ha | ha
      · exact h a ha b (List.mem_cons_of_mem e hb)
      · rw [List.mem_singleton.mp ha]
        exact hhead b hb)
    refine ⟨d', ?_, ?_⟩
    · rw [insertAll, insertNew_eq_some.mpr ⟨hnew, rfl⟩, Option.bind_some, hd']
    · rw [hentries, hset, List.append_assoc]
      rfl

/-- Inserting the entries of a map gives the map. -/
theorem insertAll_entries (d : SortedDict κ β) :
    (∅ : SortedDict κ β).insertAll d.entries = some d := by
  obtain ⟨d', hd', hentries⟩ := insertAll_of_lt (∅ : SortedDict κ β) d.sorted
    fun a ha => absurd ha List.not_mem_nil
  have heq : d' = d := by
    obtain ⟨es, hes⟩ := d'
    obtain ⟨es', hes'⟩ := d
    obtain rfl : es = es' := hentries
    rfl
  rw [hd', heq]

/-! ### Entries -/

theorem mem_insertEntry_self (k : κ) (v : β) (es : List (κ × β)) : (k, v) ∈ insertEntry k v es := by
  induction es with
  | nil => exact List.mem_cons_self
  | cons e es ih =>
    rw [insertEntry]
    split_ifs
    · exact List.mem_cons_self
    · exact List.mem_cons_self
    · exact List.mem_cons_of_mem _ ih

theorem mem_insertEntry_of_mem {k : κ} {v : β} {es : List (κ × β)} {e : κ × β} (he : e ∈ es)
    (hne : e.1 ≠ k) : e ∈ insertEntry k v es := by
  induction es with
  | nil => exact absurd he List.not_mem_nil
  | cons e' es ih =>
    rw [insertEntry]
    split_ifs with hlt heq
    · exact List.mem_cons_of_mem _ he
    · rcases List.mem_cons.mp he with rfl | he
      · exact absurd heq.symm hne
      · exact List.mem_cons_of_mem _ he
    · rcases List.mem_cons.mp he with rfl | he
      · exact List.mem_cons_self
      · exact List.mem_cons_of_mem _ (ih he)

/-- Setting a new key adds one entry. -/
theorem mem_set_iff {d : SortedDict κ β} {k : κ} {v : β} (hk : ∀ e ∈ d.entries, e.1 ≠ k)
    {e : κ × β} : e ∈ (d.set k v).entries ↔ e = (k, v) ∨ e ∈ d.entries := by
  constructor
  · exact mem_insertEntry
  · rintro (rfl | he)
    · exact mem_insertEntry_self k v _
    · exact mem_insertEntry_of_mem he (hk e he)

theorem mem_of_lastKey? {d : SortedDict κ β} {k : κ} (h : d.lastKey? = some k) :
    ∃ e ∈ d.entries, e.1 = k := by
  obtain ⟨e, he, hk⟩ := Option.map_eq_some_iff.mp h
  exact ⟨e, List.mem_of_getLast? he, hk⟩

/-- A map is empty or has a first and a last key. -/
theorem entries_eq_nil_or_ends (d : SortedDict κ β) :
    d.entries = [] ∨ ∃ k l, d.firstKey? = some k ∧ d.lastKey? = some l := by
  unfold firstKey? lastKey?
  cases d.entries with
  | nil => exact Or.inl rfl
  | cons e es =>
    exact Or.inr ⟨e.1, _, rfl, by rw [List.getLast?_eq_some_getLast (List.cons_ne_nil e es)]; rfl⟩

/-- The last key is the greatest. -/
theorem le_lastKey? {d : SortedDict κ β} {k : κ} (h : d.lastKey? = some k) {e : κ × β}
    (he : e ∈ d.entries) : e.1 ≤ k := by
  obtain ⟨l, hl, rfl⟩ := Option.map_eq_some_iff.mp h
  obtain ⟨es, hes⟩ := List.getLast?_eq_some_iff.mp hl
  have hsorted := d.sorted
  rw [hes] at hsorted he
  rcases List.mem_append.mp he with he | he
  · exact le_of_lt ((List.pairwise_append.mp hsorted).2.2 e he l List.mem_cons_self)
  · rw [List.mem_singleton.mp he]

/-! ### The walk, step by step -/

/-- The map without the key `k`; `none` if it is not there. -/
def delete (d : SortedDict κ β) (k : κ) : Option (SortedDict κ β) :=
  if d.contains k then some ⟨d.entries.filter fun e => e.1 ≠ k, d.sorted.filter _⟩ else none

/-- Walk the live map from the position `pos` on, and delete the keys that meet `p`; `fuel` bounds
the steps. -/
def deleteFrom (p : κ → Bool) : ℕ → SortedDict κ β → ℕ → Option (SortedDict κ β)
  | 0, d, _ => some d
  | fuel + 1, d, pos =>
    match d.entries[pos]? with
    | none => some d
    | some e => if p e.1 then (d.delete e.1).bind fun d' => deleteFrom p fuel d' (pos + 1)
      else deleteFrom p fuel d (pos + 1)

/-- In a sorted list only the entry itself has its key. -/
theorem filter_ne_of_sorted {before after : List (κ × β)} {e : κ × β}
    (h : (before ++ e :: after).Pairwise fun a b => a.1 < b.1) :
    (before ++ e :: after).filter (fun a => a.1 ≠ e.1) = before ++ after := by
  obtain ⟨-, hafter, hbefore⟩ := List.pairwise_append.mp h
  rw [List.filter_append, List.filter_cons_of_neg (by simp)]
  congr 1
  · exact List.filter_eq_self.mpr fun a ha =>
      decide_eq_true (ne_of_lt (hbefore a ha e List.mem_cons_self))
  · exact List.filter_eq_self.mpr fun a ha =>
      decide_eq_true (ne_of_gt ((List.pairwise_cons.mp hafter).1 a ha))

theorem deleteFrom_end (p : κ → Bool) (fuel : ℕ) {d : SortedDict κ β} {pos : ℕ}
    (h : d.entries.length ≤ pos) : deleteFrom p fuel d pos = some d := by
  cases fuel with
  | zero => rfl
  | succ fuel =>
    rw [deleteFrom]
    simp only [List.getElem?_eq_none h]

/-- The key the walk stands at is there. -/
theorem delete_of_entries {d : SortedDict κ β} {before after : List (κ × β)} {e : κ × β}
    (hd : d.entries = before ++ e :: after) :
    ∃ d', d.delete e.1 = some d' ∧ d'.entries = before ++ after := by
  have hcontains : d.contains e.1 = true := by
    refine contains_iff_entries.mpr ⟨e, ?_, rfl⟩
    rw [hd]
    exact List.mem_append_right before List.mem_cons_self
  refine ⟨_, if_pos hcontains, ?_⟩
  show d.entries.filter (fun a => a.1 ≠ e.1) = before ++ after
  have hsorted := d.sorted
  rw [hd] at hsorted ⊢
  exact filter_ne_of_sorted hsorted

/-- **The walk never fails**, and deletes what `walkDelete` does. -/
theorem deleteFrom_eq (p : κ → Bool) {fuel : ℕ} {d : SortedDict κ β} {before after : List (κ × β)}
    (hd : d.entries = before ++ after) (hfuel : after.length ≤ fuel) :
    ∃ d', deleteFrom p fuel d before.length = some d' ∧
      d'.entries = before ++ walkDelete p after := by
  induction fuel generalizing d before after with
  | zero =>
    obtain rfl := List.length_eq_zero_iff.mp (Nat.le_zero.mp hfuel)
    exact ⟨d, rfl, hd⟩
  | succ fuel ih =>
    cases after with
    | nil => exact ⟨d, deleteFrom_end p _ (by simp [hd]), hd⟩
    | cons e after =>
      have hat : d.entries[before.length]? = some e := by simp [hd]
      have hlength : after.length ≤ fuel := by simpa using hfuel
      rw [deleteFrom, hat]
      by_cases hp : p e.1 = true
      · obtain ⟨d', hdelete, hd'⟩ := delete_of_entries hd
        simp only [if_pos hp, hdelete, Option.bind_some]
        cases after with
        | nil =>
          refine ⟨d', deleteFrom_end p _ (by simp [hd']), ?_⟩
          rw [hd', walkDelete, if_pos hp]
        | cons e' after =>
          -- the walk stands behind `e'`, which has moved into the place of `e`
          have hstep : d'.entries = (before ++ [e']) ++ after := by simp [hd']
          obtain ⟨d'', hwalk, hd''⟩ := ih hstep (by simp at hlength; omega)
          rw [List.length_append] at hwalk
          refine ⟨d'', hwalk, ?_⟩
          rw [hd'', walkDelete, if_pos hp]
          simp
      · have hstep : d.entries = (before ++ [e]) ++ after := by simp [hd]
        obtain ⟨d', hwalk, hd'⟩ := ih hstep hlength
        rw [List.length_append] at hwalk
        simp only [if_neg hp]
        refine ⟨d', hwalk, ?_⟩
        rw [hd']
        cases after with
        | nil => simp [walkDelete, hp]
        | cons e' after => simp [walkDelete, hp]

/-- **The walk from the first position** is `deleteWalking`. -/
theorem deleteFrom_zero (p : κ → Bool) (d : SortedDict κ β) :
    deleteFrom p d.size d 0 = some (d.deleteWalking p) := by
  obtain ⟨⟨entries, hsorted⟩, hwalk, hd⟩ := deleteFrom_eq p (List.nil_append d.entries).symm le_rfl
  obtain rfl : entries = walkDelete p d.entries := hd
  exact hwalk

/-! ### What the walk leaves -/

omit [LinearOrder κ] in
theorem walkDelete_eq_self (p : κ → Bool) : {es : List (κ × β)} →
    (∀ e ∈ es, p e.1 = false) → walkDelete p es = es
  | [], _ => rfl
  | [e], h => by simp [walkDelete, h e List.mem_cons_self]
  | e :: e' :: es, h => by
    rw [walkDelete, if_neg (by simp [h e List.mem_cons_self]),
      walkDelete_eq_self p fun a ha => h a (List.mem_cons_of_mem e ha)]

/-- **What the walk leaves**: of an initial part of the keys, all are deleted if and only if there
is at most one. -/
theorem entries_deleteWalking_iff {d : SortedDict κ β} {p : κ → Bool}
    (hp : ∀ a b, a < b → p b = true → p a = true) :
    (d.deleteWalking p).entries = d.entries.filter (fun e => !p e.1) ↔
      (d.entries.filter fun e => p e.1).length ≤ 1 := by
  obtain ⟨es, hsorted⟩ := d
  show walkDelete p es = _ ↔ _
  have hafter : ∀ e es, (e :: es).Pairwise (fun a b : κ × β => a.1 < b.1) → p e.1 = false →
      ∀ a ∈ es, p a.1 = false := by
    intro e es hsorted he a ha
    by_contra hpa
    have hpe := hp e.1 a.1 ((List.pairwise_cons.mp hsorted).1 a ha) (by simpa using hpa)
    rw [he] at hpe
    exact Bool.false_ne_true hpe
  have hnone : ∀ es : List (κ × β), (∀ a ∈ es, p a.1 = false) →
      es.filter (fun e => !p e.1) = es ∧ es.filter (fun e => p e.1) = [] := fun es h =>
    ⟨List.filter_eq_self.mpr fun a ha => by simp [h a ha],
      List.filter_eq_nil_iff.mpr fun a ha => by simp [h a ha]⟩
  match es, hsorted with
  | [], _ => simp [walkDelete]
  | [e], _ => cases he : p e.1 <;> simp [walkDelete, he]
  | e :: e' :: es, hsorted =>
    by_cases he : p e.1 = true
    · rw [walkDelete, if_pos he]
      by_cases he' : p e'.1 = true
      · refine iff_of_false (fun heq => ?_) (by simp [he, he'])
        have hmem : e' ∈ (e :: e' :: es).filter fun e => !p e.1 := heq ▸ List.mem_cons_self
        simp [he'] at hmem
      · have hes := hafter e' es (List.pairwise_cons.mp hsorted).2 (by simpa using he')
        obtain ⟨hkept, hdeleted⟩ := hnone es hes
        rw [walkDelete_eq_self p hes]
        exact iff_of_true (by simp [he, he', hkept]) (by simp [he, he', hdeleted])
    · have hall : ∀ a ∈ e :: e' :: es, p a.1 = false := by
        intro a ha
        rcases List.mem_cons.mp ha with rfl | ha
        · simpa using he
        · exact hafter e (e' :: es) hsorted (by simpa using he) a ha
      obtain ⟨hkept, hdeleted⟩ := hnone _ hall
      rw [walkDelete_eq_self p hall, hkept, hdeleted]
      exact iff_of_true rfl (Nat.zero_le 1)

end SortedDict
