import Mathlib.Data.List.Nodup
import Mathlib.Tactic.SplitIfs

/-!
# Dict — finite maps in the order of insertion

The built-in dictionary of a scripting language: a new key goes to the end, a key that is there
keeps its place.  Walking a dictionary visits the entries in this order.
-/

/-- A finite map from `κ` to `β`, in the order in which the keys were inserted. -/
structure Dict (κ β : Type*) where
  entries : List (κ × β)
  nodup : (entries.map Prod.fst).Nodup

namespace Dict

variable {κ β : Type*}

instance : EmptyCollection (Dict κ β) := ⟨⟨[], List.nodup_nil⟩⟩

/-- The dictionary without the values that fail `p`. -/
def filter (d : Dict κ β) (p : β → Bool) : Dict κ β :=
  ⟨d.entries.filter fun e => p e.2, d.nodup.sublist (List.filter_sublist.map Prod.fst)⟩

def values (d : Dict κ β) : List β := d.entries.map Prod.snd

def keys (d : Dict κ β) : List κ := d.entries.map Prod.fst

theorem mem_filter {d : Dict κ β} {p : β → Bool} {e : κ × β} :
    e ∈ (d.filter p).entries ↔ e ∈ d.entries ∧ p e.2 = true := List.mem_filter

/-- If the keys can be read off the values, they tell the values apart. -/
theorem values_map_nodup (d : Dict κ β) {f : β → κ} (hf : ∀ e ∈ d.entries, e.1 = f e.2) :
    (d.values.map f).Nodup := by
  have heq : d.values.map f = d.entries.map Prod.fst := by
    rw [values, List.map_map]
    exact List.map_congr_left fun e he => (hf e he).symm
  rw [heq]
  exact d.nodup

variable [DecidableEq κ]

/-- Put an entry into the place of the entry with the same key, or at the end. -/
def putEntry (k : κ) (v : β) : List (κ × β) → List (κ × β)
  | [] => [(k, v)]
  | e :: es => if e.1 = k then (k, v) :: es else e :: putEntry k v es

theorem mem_putEntry {k : κ} {v : β} {es : List (κ × β)} {e : κ × β} (h : e ∈ putEntry k v es) :
    e = (k, v) ∨ e ∈ es := by
  induction es with
  | nil => exact Or.inl (List.mem_singleton.mp h)
  | cons e' es ih =>
    rw [putEntry] at h
    split_ifs at h
    · exact (List.mem_cons.mp h).imp_right (List.mem_cons_of_mem e')
    · rcases List.mem_cons.mp h with rfl | h
      · exact Or.inr List.mem_cons_self
      · exact (ih h).imp_right (List.mem_cons_of_mem e')

theorem putEntry_nodup {k : κ} {v : β} {es : List (κ × β)} (h : (es.map Prod.fst).Nodup) :
    ((putEntry k v es).map Prod.fst).Nodup := by
  induction es with
  | nil => exact List.nodup_singleton k
  | cons e es ih =>
    obtain ⟨hhead, htail⟩ := List.nodup_cons.mp h
    rw [putEntry]
    split_ifs with hk
    · rw [List.map_cons, ← hk]
      exact h
    · refine List.nodup_cons.mpr ⟨fun hmem => ?_, ih htail⟩
      obtain ⟨e', he', hk'⟩ := List.mem_map.mp hmem
      rcases mem_putEntry he' with rfl | he'
      · exact hk hk'.symm
      · exact hhead (List.mem_map.mpr ⟨e', he', hk'⟩)

/-- The dictionary with `v` at `k`. -/
def set (d : Dict κ β) (k : κ) (v : β) : Dict κ β :=
  ⟨putEntry k v d.entries, putEntry_nodup d.nodup⟩

def get? (d : Dict κ β) (k : κ) : Option β := d.entries.lookup k

/-- A key is in the dictionary with the value of its only entry. -/
theorem get?_eq_some_iff {d : Dict κ β} {k : κ} {v : β} : d.get? k = some v ↔ (k, v) ∈ d.entries := by
  obtain ⟨entries, hnodup⟩ := d
  show entries.lookup k = some v ↔ (k, v) ∈ entries
  induction entries with
  | nil => simp
  | cons e entries ih =>
    obtain ⟨k', v'⟩ := e
    obtain ⟨hhead, htail⟩ := List.nodup_cons.mp hnodup
    rw [List.lookup_cons, List.mem_cons, Prod.mk.injEq]
    by_cases hk : k = k'
    · subst hk
      have hnot : (k, v) ∉ entries := fun hmem => hhead (List.mem_map.mpr ⟨(k, v), hmem, rfl⟩)
      simp [hnot, eq_comm]
    · rw [show (k == k') = false from beq_false_of_ne hk]
      simp [hk, ih htail]

theorem putEntry_keys_of_mem {k : κ} {v : β} {es : List (κ × β)} (h : k ∈ es.map Prod.fst) :
    (putEntry k v es).map Prod.fst = es.map Prod.fst := by
  induction es with
  | nil => exact absurd h List.not_mem_nil
  | cons e es ih =>
    rw [putEntry]
    split_ifs with hk
    · rw [List.map_cons, List.map_cons, hk]
    · rw [List.map_cons, ih ((List.mem_cons.mp h).resolve_left fun heq => hk heq.symm),
        List.map_cons]

theorem putEntry_keys_of_notMem {k : κ} {v : β} {es : List (κ × β)} (h : k ∉ es.map Prod.fst) :
    (putEntry k v es).map Prod.fst = es.map Prod.fst ++ [k] := by
  induction es with
  | nil => rfl
  | cons e es ih =>
    rw [List.map_cons, List.mem_cons, not_or] at h
    obtain ⟨hne, htail⟩ := h
    rw [putEntry, if_neg (Ne.symm hne), List.map_cons, ih htail, List.map_cons, List.cons_append]

/-- A key that is there keeps its place. -/
theorem keys_set_of_mem {d : Dict κ β} {k : κ} (v : β) (h : k ∈ d.keys) :
    (d.set k v).keys = d.keys := putEntry_keys_of_mem h

/-- A new key goes to the end. -/
theorem keys_set_of_notMem {d : Dict κ β} {k : κ} (v : β) (h : k ∉ d.keys) :
    (d.set k v).keys = d.keys ++ [k] := putEntry_keys_of_notMem h

theorem lookup_putEntry {k k' : κ} {v : β} (es : List (κ × β)) :
    (putEntry k v es).lookup k' = if k' = k then some v else es.lookup k' := by
  induction es with
  | nil =>
    by_cases hk : k' = k
    · simp [putEntry, hk]
    · simp [putEntry, hk, List.lookup_cons, beq_false_of_ne hk]
  | cons e es ih =>
    rw [putEntry]
    by_cases hk : k' = k
    · subst hk
      rw [if_pos rfl] at ih ⊢
      split_ifs with he
      · rw [List.lookup_cons_self]
      · rw [List.lookup_cons, beq_false_of_ne (Ne.symm he), ih]
    · rw [if_neg hk]
      split_ifs with he
      · subst he
        rw [List.lookup_cons, List.lookup_cons, beq_false_of_ne hk]
      · rw [List.lookup_cons, List.lookup_cons, ih, if_neg hk]

theorem get?_set (d : Dict κ β) (k k' : κ) (v : β) :
    (d.set k v).get? k' = if k' = k then some v else d.get? k' := lookup_putEntry d.entries

/-- The entries of `d'` put into `d`. -/
def update (d d' : Dict κ β) : Dict κ β := d'.entries.foldl (fun d e => d.set e.1 e.2) d

theorem get?_foldl_set {es : List (κ × β)} (hnodup : (es.map Prod.fst).Nodup) (d : Dict κ β)
    (k : κ) : (es.foldl (fun d e => d.set e.1 e.2) d).get? k = (es.lookup k).or (d.get? k) := by
  induction es generalizing d with
  | nil => rfl
  | cons e es ih =>
    obtain ⟨hhead, htail⟩ := List.nodup_cons.mp hnodup
    rw [List.foldl_cons, ih htail, get?_set, List.lookup_cons]
    by_cases hk : k = e.1
    · have hnone : es.lookup k = none := by
        rw [List.lookup_eq_none_iff]
        intro e' he'
        refine bne_iff_ne.mpr fun heq => hhead ?_
        rw [← hk, heq]
        exact List.mem_map_of_mem he'
      rw [hnone, if_pos hk, beq_iff_eq.mpr hk]
      rfl
    · rw [if_neg hk, beq_false_of_ne hk]

/-- What is in `d'` replaces what is in `d`. -/
theorem get?_update (d d' : Dict κ β) (k : κ) :
    (d.update d').get? k = (d'.get? k).or (d.get? k) := get?_foldl_set d'.nodup d k

theorem get?_filter (d : Dict κ β) (p : β → Bool) (k : κ) :
    (d.filter p).get? k = (d.get? k).filter p := by
  ext v
  rw [get?_eq_some_iff, mem_filter, ← get?_eq_some_iff, Option.filter_eq_some_iff]

theorem mem_set {d : Dict κ β} {k : κ} {v : β} {e : κ × β} (h : e ∈ (d.set k v).entries) :
    e = (k, v) ∨ e ∈ d.entries := mem_putEntry h

end Dict
