import RoverSwarm.IkdTree
import RoverSwarm.Lib.Circular

/-!
# IkdTree.Queue — the ring that logs what the rebuild thread missed

`push` does not look whether the slot it writes is free.  As long as no more than `Q_LEN` operations
wait, they are read in the order in which they were pushed; the next one takes the place of the
oldest.
-/

namespace RoverSwarm.IkdTree.ManualQ

variable {α : Type} {x : ManualQ α} {l : List α} {a : α}

theorem Q_LEN_pos : 0 < Q_LEN := by
  unfold Q_LEN
  exact Nat.succ_pos _

/-- Nothing waits in the queue. -/
structure Empty (x : ManualQ α) : Prop where
  head : x.head = x.tail
  lt : x.head < Q_LEN
  counter : x.counter = 0
  isEmpty : x.isEmpty = true
  length : x.q.length = Q_LEN

/-- The operations have been pushed since the queue was empty. -/
def Pushed (x : ManualQ α) (l : List α) : Prop := ∃ y, Empty y ∧ x = l.foldl push y

theorem Empty.pushed (h : x.Empty) : x.Pushed [] := ⟨x, h, rfl⟩

theorem Pushed.push (h : x.Pushed l) (a : α) : (x.push a).Pushed (l ++ [a]) := by
  obtain ⟨y, hy, rfl⟩ := h
  exact ⟨y, hy, by rw [List.foldl_append]; rfl⟩

theorem Pushed.counter (h : x.Pushed l) : x.counter = l.length := by
  obtain ⟨y, hy, rfl⟩ := h
  induction l using List.reverseRecOn with
  | nil => exact hy.counter
  | append_singleton l a ih =>
    rw [List.foldl_append, List.length_append]
    exact congrArg Nat.succ ih

/-- The entries wait in the queue, behind those that were written before. -/
structure Waits (x : ManualQ α) (before : List (Option α)) (l : List α) : Prop where
  head : x.head = before.length % Q_LEN
  tail : x.tail = (before.length + l.length) % Q_LEN
  counter : x.counter = l.length
  isEmpty : x.isEmpty = l.isEmpty
  length : x.q.length = Q_LEN
  holds : Circular.Holds l.length x.q (before ++ l.map some)

variable {before : List (Option α)}

theorem Empty.waits (h : x.Empty) : x.Waits (List.replicate x.head none) [] := by
  have hmod : x.head % Q_LEN = x.head := Nat.mod_eq_of_lt h.lt
  refine ⟨?_, ?_, h.counter, h.isEmpty, h.length, fun k hk hlast => ?_⟩
  · rw [List.length_replicate, hmod]
  · rw [List.length_replicate, List.length_nil, Nat.add_zero, hmod, h.head]
  · rw [List.length_nil] at hlast
    omega

theorem Waits.push (h : x.Waits before l) (hroom : l.length < Q_LEN) (a : α) :
    (x.push a).Waits before (l ++ [a]) := by
  have hwrite := h.holds.write (h.length.symm ▸ hroom) (some a)
  have hslot : Circular.write x.q (before ++ l.map some).length (some a) =
      x.q.set x.tail (some a) := by
    unfold Circular.write
    rw [h.length, h.tail, List.length_append, List.length_map]
  rw [hslot, List.append_assoc] at hwrite
  refine ⟨h.head, ?_, ?_, by simp [ManualQ.push], ?_, ?_⟩
  · show (x.tail + 1) % Q_LEN = _
    rw [h.tail, Nat.mod_add_mod, List.length_append]
    rfl
  · show x.counter + 1 = _
    rw [h.counter, List.length_append]
    rfl
  · show (x.q.set _ _).length = _
    rw [List.length_set, h.length]
  · rw [List.length_append, List.map_append]
    exact hwrite

theorem Waits.front (h : x.Waits before (a :: l)) : x.front = some a := by
  have hfirst : x.q[before.length % x.q.length]? = (before ++ (a :: l).map some)[before.length]? := by
    refine h.holds before.length ?_ ?_
    · simp
    · simp
  rw [h.length, ← h.head] at hfirst
  unfold ManualQ.front
  rw [hfirst]
  simp

theorem Waits.pop (h : x.Waits before (a :: l)) : x.pop.Waits (before ++ [some a]) l := by
  have hcounter : x.counter = l.length + 1 := h.counter
  unfold ManualQ.pop
  rw [if_neg (by omega)]
  refine ⟨?_, ?_, ?_, ?_, h.length, ?_⟩
  · show (x.head + 1) % Q_LEN = _
    rw [h.head, Nat.mod_add_mod, List.length_append]
    rfl
  · show x.tail = _
    rw [h.tail, List.length_append, List.length_cons, List.length_singleton]
    congr 1
    omega
  · show x.counter - 1 = _
    omega
  · show (if x.counter - 1 = 0 then true else x.isEmpty) = _
    rw [hcounter, Nat.add_sub_cancel]
    cases l with
    | nil => rfl
    | cons b l =>
      rw [List.length_cons, if_neg (Nat.succ_ne_zero l.length), h.isEmpty]
      rfl
  · have hholds := h.holds.mono (Nat.le_succ l.length)
    rwa [List.map_cons, ← List.singleton_append, ← List.append_assoc] at hholds

/-- What was pushed waits, as long as there is room for it. -/
theorem Pushed.waits (h : x.Pushed l) (hroom : l.length ≤ Q_LEN) : ∃ before, x.Waits before l := by
  obtain ⟨y, hy, rfl⟩ := h
  refine ⟨List.replicate y.head none, ?_⟩
  induction l using List.reverseRecOn with
  | nil => exact hy.waits
  | append_singleton l a ih =>
    rw [List.length_append, List.length_singleton] at hroom
    rw [List.foldl_append]
    exact (ih (by omega)).push hroom a

/-- **A full queue loses its oldest operation** to the next one. -/
theorem Pushed.front_push (h : x.Pushed l) (hfull : l.length = Q_LEN) (a : α) :
    (x.push a).front = some a := by
  obtain ⟨before, hwaits⟩ := h.waits hfull.le
  have htail : x.tail = x.head := by
    rw [hwaits.tail, hwaits.head, hfull, Nat.add_mod_right]
  have hlt : x.head < x.q.length := by
    rw [hwaits.length, hwaits.head]
    exact Nat.mod_lt _ Q_LEN_pos
  show ((x.q.set x.tail (some a))[x.head]?).join = some a
  rw [htail, List.getElem?_set_self hlt]
  rfl

end RoverSwarm.IkdTree.ManualQ
