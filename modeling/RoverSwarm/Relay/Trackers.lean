import Mathlib.Algebra.Order.Group.Int
import RoverSwarm.Relay
import RoverSwarm.Lib.Recent

/-!
# Trackers — how large an `_EchoTracker` grows and what it forgets

`add` prunes when the tracker has outgrown its cap, but it prunes by age and not by number.  So a
tracker always holds what is recent among all that was ever added to it, however much that is, and
an `add` that prunes drops its own entry when the stamp is too old.
-/

namespace RoverSwarm.Relay.EchoTracker

open Recent

variable {pair : String × String} {stamp : Stamp} {ks : List ((String × String) × Stamp)}

def secOf (k : Entry) : ℤ := k.2.1

@[simp] theorem secOf_entryOf (pair : String × String) (stamp : Stamp) :
    secOf (entryOf pair stamp) = stamp.sec := rfl

/-- All entries that the calls of `addAll` add. -/
def added (ks : List ((String × String) × Stamp)) : Finset Entry :=
  (ks.map fun p => entryOf p.1 p.2).toFinset

@[simp] theorem mem_added {k : Entry} : k ∈ added ks ↔ ∃ p ∈ ks, entryOf p.1 p.2 = k := by
  simp [added]

theorem added_concat (ks : List ((String × String) × Stamp)) (pair : String × String)
    (stamp : Stamp) : added (ks ++ [(pair, stamp)]) = insert (entryOf pair stamp) (added ks) := by
  ext k
  simp only [mem_added, List.mem_append, List.mem_singleton, Finset.mem_insert]
  constructor
  · rintro ⟨p, hp | rfl, rfl⟩
    · exact Or.inr ⟨p, hp, rfl⟩
    · exact Or.inl rfl
  · rintro (rfl | ⟨p, hp, rfl⟩)
    · exact ⟨(pair, stamp), Or.inr rfl, rfl⟩
    · exact ⟨p, Or.inl hp, rfl⟩

/-! ### One call -/

/-- With the new entry the tracker has outgrown its cap. -/
def Overfull (tr : EchoTracker) (pair : String × String) (stamp : Stamp) : Prop :=
  tr.cap < (insert (entryOf pair stamp) tr.entries).card

/-- Pruning keeps what is recent. -/
theorem prune_entries {tr : EchoTracker} (h : tr.entries.Nonempty) :
    tr.prune.entries = recent secOf tr.windowSec tr.entries := by
  obtain ⟨m, hm, hmax⟩ := tr.entries.exists_max_image secOf h
  have hnewest : (tr.entries.image fun k => k.2.1).max = ((secOf m : ℤ) : WithBot ℤ) := by
    refine le_antisymm (Finset.max_le fun x hx => ?_)
      (Finset.le_max (Finset.mem_image_of_mem secOf hm))
    obtain ⟨k, hk, rfl⟩ := Finset.mem_image.mp hx
    exact WithBot.coe_le_coe.mpr (hmax k hk)
  rw [recent_eq_filter hm hmax]
  unfold prune
  rw [hnewest]
  rfl

theorem add_of_overfull {tr : EchoTracker} (h : tr.Overfull pair stamp) :
    (tr.add pair stamp).entries =
      recent secOf tr.windowSec (insert (entryOf pair stamp) tr.entries) := by
  have hcap : tr.cap < (insert (entryOf pair stamp) tr.entries).card := h
  unfold add
  dsimp only
  rw [if_pos hcap]
  exact prune_entries (Finset.insert_nonempty _ _)

theorem add_of_not_overfull {tr : EchoTracker} (h : ¬ tr.Overfull pair stamp) :
    (tr.add pair stamp).entries = insert (entryOf pair stamp) tr.entries :=
  add_entries (not_lt.mp h)

@[simp] theorem add_windowSec (tr : EchoTracker) :
    (tr.add pair stamp).windowSec = tr.windowSec := by
  unfold add
  dsimp only
  split_ifs <;> rfl

@[simp] theorem add_cap (tr : EchoTracker) : (tr.add pair stamp).cap = tr.cap := by
  unfold add
  dsimp only
  split_ifs <;> rfl

/-! ### Calls one after the other -/

theorem addAll_concat (tr : EchoTracker) (ks : List ((String × String) × Stamp))
    (pair : String × String) (stamp : Stamp) :
    tr.addAll (ks ++ [(pair, stamp)]) = (tr.addAll ks).add pair stamp := by
  induction ks generalizing tr with
  | nil => rfl
  | cons p ks ih =>
    obtain ⟨pair', stamp'⟩ := p
    rw [List.cons_append, addAll, ih, addAll]

@[simp] theorem addAll_windowSec (tr : EchoTracker) (ks : List ((String × String) × Stamp)) :
    (tr.addAll ks).windowSec = tr.windowSec := by
  induction ks generalizing tr with
  | nil => rfl
  | cons p ks ih => rw [addAll, ih, add_windowSec]

@[simp] theorem addAll_cap (tr : EchoTracker) (ks : List ((String × String) × Stamp)) :
    (tr.addAll ks).cap = tr.cap := by
  induction ks generalizing tr with
  | nil => rfl
  | cons p ks ih => rw [addAll, ih, add_cap]

variable {windowSec : ℤ} {cap : ℕ}

/-- `_EchoTracker(windowSec, cap)`. -/
abbrev fresh (windowSec : ℤ) (cap : ℕ) : EchoTracker := ⟨∅, windowSec, cap⟩

/-- **Tracking invariant**: the tracker holds all that is recent, and only what was added. -/
theorem tracks_addAll (windowSec : ℤ) (cap : ℕ) (ks : List ((String × String) × Stamp)) :
    Tracks secOf windowSec (added ks) ((fresh windowSec cap).addAll ks).entries := by
  induction ks using List.reverseRecOn with
  | nil => exact Tracks.refl ∅
  | append_singleton ks p ih =>
    obtain ⟨pair, stamp⟩ := p
    rw [addAll_concat, added_concat]
    by_cases hfull : ((fresh windowSec cap).addAll ks).Overfull pair stamp
    · rw [add_of_overfull hfull, addAll_windowSec]
      exact (ih.insert _).recent
    · rw [add_of_not_overfull hfull]
      exact ih.insert _

/-- A call that prunes leaves what is recent among all that was added. -/
theorem addAll_of_overfull (h : ((fresh windowSec cap).addAll ks).Overfull pair stamp) :
    ((fresh windowSec cap).addAll (ks ++ [(pair, stamp)])).entries =
      recent secOf windowSec (added (ks ++ [(pair, stamp)])) := by
  rw [addAll_concat, add_of_overfull h, addAll_windowSec, added_concat]
  exact ((tracks_addAll windowSec cap ks).insert _).recent_eq

/-- The size of a tracker: its cap, or what is recent if that is more. -/
theorem card_addAll_le (windowSec : ℤ) (cap : ℕ) (ks : List ((String × String) × Stamp)) :
    ((fresh windowSec cap).addAll ks).entries.card ≤
      max cap (recent secOf windowSec (added ks)).card := by
  rcases List.eq_nil_or_concat' ks with rfl | ⟨ks, ⟨pair, stamp⟩, rfl⟩
  · exact Nat.zero_le _
  · by_cases hfull : ((fresh windowSec cap).addAll ks).Overfull pair stamp
    · rw [addAll_of_overfull hfull]
      exact le_max_right _ _
    · rw [addAll_concat, add_of_not_overfull hfull]
      have hcap : (insert (entryOf pair stamp) ((fresh windowSec cap).addAll ks).entries).card ≤
          ((fresh windowSec cap).addAll ks).cap := not_lt.mp hfull
      rw [addAll_cap] at hcap
      exact hcap.trans (le_max_left _ _)

/-- The entry just added is still there, unless the call prunes and the stamp is too old. -/
theorem contains_addAll_iff :
    ((fresh windowSec cap).addAll (ks ++ [(pair, stamp)])).contains pair stamp = true ↔
      (((fresh windowSec cap).addAll ks).Overfull pair stamp →
        ∀ p ∈ ks ++ [(pair, stamp)], p.2.sec - windowSec ≤ stamp.sec) := by
  rw [contains_iff]
  by_cases hfull : ((fresh windowSec cap).addAll ks).Overfull pair stamp
  · have hmem : entryOf pair stamp ∈ added (ks ++ [(pair, stamp)]) :=
      mem_added.mpr ⟨(pair, stamp), by simp, rfl⟩
    rw [addAll_of_overfull hfull, mem_recent, and_iff_right hmem, imp_iff_right hfull]
    constructor
    · exact fun h p hp => h _ (mem_added.mpr ⟨p, hp, rfl⟩)
    · intro h k hk
      obtain ⟨p, hp, rfl⟩ := mem_added.mp hk
      exact h p hp
  · rw [addAll_concat, add_of_not_overfull hfull]
    exact iff_of_true (Finset.mem_insert_self _ _) fun h => absurd h hfull

/-- Entries within one window are never dropped, however many they are. -/
theorem addAll_entries_of_oneWindow (windowSec : ℤ) (cap : ℕ)
    {ks : List ((String × String) × Stamp)}
    (h : ∀ p ∈ ks, ∀ q ∈ ks, q.2.sec - windowSec ≤ p.2.sec) :
    ((fresh windowSec cap).addAll ks).entries = added ks := by
  obtain ⟨hrecent, hsub⟩ := tracks_addAll windowSec cap ks
  refine Finset.Subset.antisymm hsub ?_
  rwa [recent_eq_self] at hrecent
  intro a ha b hb
  obtain ⟨p, hp, rfl⟩ := mem_added.mp ha
  obtain ⟨q, hq, rfl⟩ := mem_added.mp hb
  exact h p hp q hq

/-! ### When the tracker is bounded -/

/-- After each call the tracker holds at most `cap` entries, and the one just added. -/
def StaysBounded (windowSec : ℤ) (cap : ℕ) (ks : List ((String × String) × Stamp)) : Prop :=
  ∀ pre pair stamp, pre ++ [(pair, stamp)] <+: ks →
    ((fresh windowSec cap).addAll (pre ++ [(pair, stamp)])).entries.card ≤ cap ∧
      ((fresh windowSec cap).addAll (pre ++ [(pair, stamp)])).contains pair stamp = true

/-- At each call, no more than `cap` of the entries up to then are recent, and if the tracker has
outgrown its cap, the stamp of the call is at most `windowSec` older than any before. -/
def Spread (windowSec : ℤ) (cap : ℕ) (ks : List ((String × String) × Stamp)) : Prop :=
  ∀ pre pair stamp, pre ++ [(pair, stamp)] <+: ks →
    (recent secOf windowSec (added (pre ++ [(pair, stamp)]))).card ≤ cap ∧
      (((fresh windowSec cap).addAll pre).Overfull pair stamp →
        ∀ p ∈ pre ++ [(pair, stamp)], p.2.sec - windowSec ≤ stamp.sec)

/-- **Bound**: a tracker stays bounded and keeps what it is given exactly if the calls are spread
over time. -/
theorem staysBounded_iff (windowSec : ℤ) (cap : ℕ) (ks : List ((String × String) × Stamp)) :
    StaysBounded windowSec cap ks ↔ Spread windowSec cap ks := by
  refine forall_congr' fun pre => forall_congr' fun pair => forall_congr' fun stamp =>
    imp_congr_right fun _ => ?_
  rw [contains_addAll_iff]
  refine and_congr_left fun _ => ?_
  constructor
  · intro h
    have hrecent := (tracks_addAll windowSec cap (pre ++ [(pair, stamp)])).recent_subset
    exact (Finset.card_le_card hrecent).trans h
  · intro h
    have hle := card_addAll_le windowSec cap (pre ++ [(pair, stamp)])
    rwa [max_eq_left h] at hle

/-- One transform each millisecond, for `n` milliseconds from the second `start` on. -/
def burst (start : ℤ) (n : ℕ) : List ((String × String) × Stamp) :=
  (List.range n).map fun i =>
    (("rover_0/odom", "rover_0/base_link"), ⟨start + (i / 1000 : ℕ), i % 1000 * 1000000⟩)

theorem sec_of_mem_burst {start : ℤ} {n : ℕ} {p : (String × String) × Stamp}
    (hp : p ∈ burst start n) : start ≤ p.2.sec ∧ p.2.sec ≤ start + (n / 1000 : ℕ) := by
  obtain ⟨i, hi, rfl⟩ := List.mem_map.mp hp
  have hi : i < n := List.mem_range.mp hi
  dsimp only
  omega

theorem card_added_burst (start : ℤ) (n : ℕ) : (added (burst start n)).card = n := by
  have hnodup : ((burst start n).map fun p => entryOf p.1 p.2).Nodup := by
    rw [burst, List.map_map]
    refine List.Nodup.map (fun i j hij => ?_) List.nodup_range
    simp only [Function.comp_apply, entryOf, Prod.mk.injEq, true_and] at hij
    omega
  rw [added, List.toFinset_card_of_nodup hnodup]
  simp [burst]

/-- A burst within one window is kept whole. -/
theorem addAll_burst {start : ℤ} {n : ℕ} (hn : n < 61000) :
    ((fresh 60 20000).addAll (burst start n)).entries = added (burst start n) := by
  refine addAll_entries_of_oneWindow 60 20000 fun p hp q hq => ?_
  have hp := sec_of_mem_burst hp
  have hq := sec_of_mem_burst hq
  omega

/-- At a thousand transforms each second a tracker is beyond its cap after 21 seconds, and a full
one drops a transform older than its window as it is added. -/
theorem not_staysBounded :
    ¬ StaysBounded 60 20000 (burst 0 20001) ∧
      (({} : EchoTracker).addAll (burst 100 20000 ++ [(("map", "rover_0/map"), ⟨0, 0⟩)])).contains
        ("map", "rover_0/map") ⟨0, 0⟩ = false := by
  refine ⟨fun h => ?_, ?_⟩
  · have hsplit : burst 0 20001 =
        burst 0 20000 ++ [(("rover_0/odom", "rover_0/base_link"), ⟨20, 0⟩)] := by
      rw [burst, List.range_succ, List.map_append]
      rfl
    have hcard := (h _ _ _ ⟨[], by rw [hsplit, List.append_nil]⟩).1
    rw [← hsplit, addAll_burst (by omega), card_added_burst] at hcard
    omega
  · have hfull : ((fresh 60 20000).addAll (burst 100 20000)).Overfull ("map", "rover_0/map")
        ⟨0, 0⟩ := by
      have hnew : entryOf ("map", "rover_0/map") ⟨0, 0⟩ ∉ added (burst 100 20000) := by
        rw [mem_added]
        rintro ⟨p, hp, heq⟩
        have hsec : p.2.sec = 0 := congrArg secOf heq
        have := sec_of_mem_burst hp
        omega
      rw [Overfull, addAll_cap, addAll_burst (by omega), Finset.card_insert_of_notMem hnew,
        card_added_burst]
      exact Nat.lt_succ_self 20000
    rw [Bool.eq_false_iff]
    intro h
    have hlate := contains_addAll_iff.mp h hfull
      (("rover_0/odom", "rover_0/base_link"), ⟨100, 0⟩)
      (List.mem_append_left _ (List.mem_map.mpr ⟨0, by simp, rfl⟩))
    simp at hlate

end RoverSwarm.Relay.EchoTracker
