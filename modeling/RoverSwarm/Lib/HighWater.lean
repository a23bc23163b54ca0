import Mathlib.Order.Lattice
import Mathlib.Order.MinMax
import Mathlib.Data.List.Sort

/-!
# HighWater — receivers that keep a high-water mark

A source lists items with increasing keys and sends batches of them, out of which a receiver logs
the items above the highest key it has seen.  The receiver is *in sync* with the source when its
log is the list of the source up to its mark.  A batch keeps it in sync when it brings nothing new
or everything the receiver lacks; a batch that starts too late leaves a gap that no later batch
fills.
-/

namespace HighWater

variable {α κ : Type*} [LinearOrder κ] (f : α → κ)

/-- The keys increase along the list. -/
def Increasing (l : List α) : Prop := l.Pairwise fun a b => f a < f b

/-- The highest of `m` and the keys in the list. -/
def top (m : κ) (l : List α) : κ := l.foldl (fun m a => max m (f a)) m

/-- A high-water mark and the items logged so far. -/
@[ext] structure Receiver (α κ : Type*) where
  mark : κ
  log : List α

def Receiver.receive (r : Receiver α κ) (batch : List α) : Receiver α κ :=
  ⟨top f r.mark batch, r.log ++ batch.filter fun a => r.mark < f a⟩

def Receiver.drain (r : Receiver α κ) (batches : List (List α)) : Receiver α κ :=
  batches.foldl (Receiver.receive f) r

variable {f}

/-! ### Increasing lists -/

theorem Increasing.of_append_right {l l' : List α} (h : Increasing f (l ++ l')) :
    Increasing f l' := (List.pairwise_append.mp h).2.1

theorem Increasing.filter {l : List α} (h : Increasing f l) (p : α → Bool) :
    Increasing f (l.filter p) := List.Pairwise.filter p h

theorem Increasing.concat {l : List α} {a : α} (h : Increasing f l)
    (ha : ∀ b ∈ l, f b < f a) : Increasing f (l ++ [a]) :=
  List.pairwise_append.mpr ⟨h, List.pairwise_singleton _ _, fun b hb c hc => by
    rw [List.mem_singleton.mp hc]
    exact ha b hb⟩

theorem Increasing.nodup {l : List α} (h : Increasing f l) : l.Nodup :=
  List.Pairwise.imp (fun hab heq => absurd (congrArg f heq) hab.ne) h

/-- Increasing lists with the same items are equal. -/
theorem Increasing.eq_of_mem_iff {l l' : List α} (h : Increasing f l) (h' : Increasing f l')
    (hmem : ∀ a, a ∈ l ↔ a ∈ l') : l = l' := by
  have hperm : l.Perm l' := (List.perm_ext_iff_of_nodup h.nodup h'.nodup).mpr hmem
  exact hperm.eq_of_pairwise (fun a b _ _ hab hba => absurd hab hba.asymm) h h'

/-- An increasing list is cut in two by any key. -/
theorem Increasing.filter_append_filter {l : List α} (h : Increasing f l) (m : κ) :
    l.filter (fun a => f a ≤ m) ++ l.filter (fun a => m < f a) = l := by
  refine Increasing.eq_of_mem_iff (f := f) ?_ h fun a => ?_
  · refine List.pairwise_append.mpr ⟨h.filter _, h.filter _, fun a ha b hb => ?_⟩
    have ha' : f a ≤ m := by simpa using (List.mem_filter.mp ha).2
    have hb' : m < f b := by simpa using (List.mem_filter.mp hb).2
    exact lt_of_le_of_lt ha' hb'
  · simp only [List.mem_append, List.mem_filter, decide_eq_true_iff]
    constructor
    · exact fun h => h.elim And.left And.left
    · exact fun h => (le_or_gt (f a) m).imp (And.intro h) (And.intro h)

/-! ### The mark -/

theorem top_append (m : κ) (l l' : List α) : top f m (l ++ l') = top f (top f m l) l' :=
  List.foldl_append

theorem top_le_iff {m b : κ} {l : List α} : top f m l ≤ b ↔ m ≤ b ∧ ∀ a ∈ l, f a ≤ b := by
  induction l generalizing m with
  | nil => simp [top]
  | cons a l ih =>
    show top f (max m (f a)) l ≤ b ↔ _
    rw [ih, max_le_iff, List.forall_mem_cons, and_assoc]

theorem le_top (m : κ) (l : List α) : m ≤ top f m l := (top_le_iff.mp le_rfl).1

theorem key_le_top (m : κ) {l : List α} {a : α} (h : a ∈ l) : f a ≤ top f m l :=
  (top_le_iff.mp le_rfl).2 a h

/-- The mark is one of the keys it was taken from. -/
theorem top_mem (m : κ) (l : List α) : top f m l = m ∨ ∃ a ∈ l, f a = top f m l := by
  induction l generalizing m with
  | nil => exact Or.inl rfl
  | cons a l ih =>
    show top f (max m (f a)) l = m ∨ ∃ b ∈ a :: l, f b = top f (max m (f a)) l
    rcases ih (max m (f a)) with h | ⟨b, hb, h⟩
    · rcases le_total m (f a) with hle | hle
      · exact Or.inr ⟨a, List.mem_cons_self, by rw [h, max_eq_right hle]⟩
      · exact Or.inl (by rw [h, max_eq_left hle])
    · exact Or.inr ⟨b, List.mem_cons_of_mem _ hb, h⟩

/-! ### Receiving -/

@[simp] theorem Receiver.receive_mark (r : Receiver α κ) (b : List α) :
    (r.receive f b).mark = top f r.mark b := rfl

@[simp] theorem Receiver.receive_log (r : Receiver α κ) (b : List α) :
    (r.receive f b).log = r.log ++ b.filter fun a => r.mark < f a := rfl

/-- Two batches with increasing keys are received like one. -/
theorem Receiver.receive_append (r : Receiver α κ) {b c : List α} (h : Increasing f (b ++ c)) :
    (r.receive f b).receive f c = r.receive f (b ++ c) := by
  have hc : c.filter (fun a => (r.receive f b).mark < f a) = c.filter fun a => r.mark < f a := by
    refine List.filter_congr fun x hx => decide_eq_decide.mpr ?_
    constructor
    · exact fun hlt => lt_of_le_of_lt (le_top _ _) hlt
    · intro hlt
      rcases top_mem (f := f) r.mark b with htop | ⟨y, hy, htop⟩
      · rwa [Receiver.receive_mark, htop]
      · rw [Receiver.receive_mark, ← htop]
        exact (List.pairwise_append.mp h).2.2 y hy x hx
  ext1
  · exact (top_append _ _ _).symm
  · rw [Receiver.receive_log, hc, Receiver.receive_log, Receiver.receive_log, List.filter_append,
      List.append_assoc]

/-- Draining batches with increasing keys is receiving all of them at once. -/
theorem Receiver.drain_eq_receive (r : Receiver α κ) {bs : List (List α)}
    (h : Increasing f bs.flatten) : r.drain f bs = r.receive f bs.flatten := by
  induction bs generalizing r with
  | nil =>
    ext1
    · rfl
    · exact (List.append_nil _).symm
  | cons b bs ih =>
    rw [List.flatten_cons] at h ⊢
    rw [← r.receive_append h]
    exact ih (r.receive f b) h.of_append_right

theorem Receiver.drain_append (r : Receiver α κ) (bs cs : List (List α)) :
    r.drain f (bs ++ cs) = (r.drain f bs).drain f cs := List.foldl_append

theorem Receiver.log_prefix_drain (r : Receiver α κ) (bs : List (List α)) :
    r.log <+: (r.drain f bs).log := by
  induction bs generalizing r with
  | nil => exact List.prefix_refl _
  | cons b bs ih => exact (List.prefix_append _ _).trans (ih (r.receive f b))

/-! ### In sync -/

/-- The log is the source's list up to the mark, and the mark is the key of an item or the one the
receiver started with. -/
structure InSync (f : α → κ) (start : κ) (items : List α) (r : Receiver α κ) : Prop where
  log : r.log = items.filter fun a => f a ≤ r.mark
  mark : r.mark = start ∨ ∃ a ∈ items, f a = r.mark

variable {start : κ} {items : List α} {r : Receiver α κ}

theorem InSync.init (f : α → κ) (start : κ) : InSync f start [] ⟨start, []⟩ :=
  ⟨rfl, Or.inl rfl⟩

/-- The mark is below every key above the start and all items. -/
theorem InSync.mark_lt (h : InSync f start items r) {k : κ} (hstart : start < k)
    (hk : ∀ a ∈ items, f a < k) : r.mark < k := by
  rcases h.mark with hm | ⟨a, ha, hm⟩
  · rwa [hm]
  · exact hm ▸ hk a ha

/-- A complete log has a mark above all items. -/
theorem InSync.le_mark (h : InSync f start items r) (hlog : r.log = items) {a : α}
    (ha : a ∈ items) : f a ≤ r.mark := by
  have hself := h.log.symm.trans hlog
  simpa using List.filter_eq_self.mp hself a ha

/-- A new item of the source keeps the receiver in sync. -/
theorem InSync.concat (h : InSync f start items r) {a : α} (hstart : start < f a)
    (ha : ∀ b ∈ items, f b < f a) : InSync f start (items ++ [a]) r := by
  have hlt := h.mark_lt hstart ha
  refine ⟨?_, h.mark.imp_right fun ⟨b, hb, hm⟩ => ⟨b, List.mem_append_left _ hb, hm⟩⟩
  rw [h.log, List.filter_append]
  simp [not_le.mpr hlt]

/-- A batch with nothing above the mark changes nothing. -/
theorem Receiver.receive_old {batch : List α} (h : ∀ a ∈ batch, f a ≤ r.mark) :
    r.receive f batch = r := by
  ext1
  · exact le_antisymm (top_le_iff.mpr ⟨le_rfl, h⟩) (le_top _ _)
  · have hnil : batch.filter (fun a => r.mark < f a) = [] := by
      refine List.filter_eq_nil_iff.mpr fun a ha => ?_
      simpa using h a ha
    rw [Receiver.receive_log, hnil, List.append_nil]

/-- **A batch with everything above the mark** completes the log. -/
theorem InSync.receive_missing (h : InSync f start items r) (hitems : Increasing f items)
    {batch : List α} (hbatch : Increasing f batch) (hsub : batch ⊆ items)
    (hall : ∀ a ∈ items, r.mark < f a → a ∈ batch) :
    (r.receive f batch).log = items ∧ InSync f start items (r.receive f batch) := by
  have hnew : batch.filter (fun a => r.mark < f a) = items.filter fun a => r.mark < f a := by
    refine (hbatch.filter _).eq_of_mem_iff (hitems.filter _) fun a => ?_
    simp only [List.mem_filter, decide_eq_true_iff]
    exact ⟨fun ⟨ha, hlt⟩ => ⟨hsub ha, hlt⟩, fun ⟨ha, hlt⟩ => ⟨hall a ha hlt, hlt⟩⟩
  have hlog : (r.receive f batch).log = items := by
    rw [Receiver.receive_log, h.log, hnew, hitems.filter_append_filter]
  refine ⟨hlog, ?_, ?_⟩
  · rw [hlog]
    refine (List.filter_eq_self.mpr fun a ha => decide_eq_true ?_).symm
    rcases le_or_gt (f a) r.mark with hle | hlt
    · exact hle.trans (le_top _ _)
    · exact key_le_top _ (hall a ha hlt)
  · rcases top_mem (f := f) r.mark batch with hm | ⟨a, ha, hm⟩
    · exact h.mark.imp hm.trans fun ⟨a, ha, hk⟩ => ⟨a, ha, hk.trans hm.symm⟩
    · exact Or.inr ⟨a, hsub ha, hm⟩

end HighWater
