import RoverSwarm.Exchange.Matches

/-!
# Exchange.Pruning — what stays in the buffers

`delete_useless_descriptors` and `delete_useless_inter_robot_matches` delete from the buffer whose
keys they are walking.  The walk never fails, and it steps over every second key it should delete,
so a buffer is pruned exactly if there is at most one such key.
-/

namespace RoverSwarm.Exchange

variable {D β : Type*}

/-! ### The two functions, with what may raise -/

/-- Delete the keys below the bound that `useless` returns for the last key; `none` if `peekitem`
or `del` raises. -/
def pruneBuffer (useless : ℤ → ℤ) (d : SortedDict ℕ β) : Option (SortedDict ℕ β) :=
  d.lastKey?.bind fun last =>
    let fromId := useless last
    d.firstKey?.bind fun first =>
      if first ≤ fromId then SortedDict.deleteFrom (fun k => (k : ℤ) < fromId) d.size d 0
      else some d

/-- `delete_useless_descriptors`. -/
def deleteUselessDescriptors? (s : Sender D) : Option (Sender D) :=
  (pruneBuffer s.neighborManager.uselessDescriptors s.globalDescriptorsBuffer).map fun d =>
    { s with globalDescriptorsBuffer := d }

/-- `delete_useless_inter_robot_matches`. -/
def deleteUselessInterRobotMatches? (s : MatchSender) : Option MatchSender :=
  (pruneBuffer s.neighborManager.uselessMatches s.interRobotMatchesBuffer).map fun d =>
    { s with interRobotMatchesBuffer := d }

/-! ### Pruning -/

/-- All entries below the bound are gone, and no others. -/
def PrunedTo (bound : ℤ) (d d' : SortedDict ℕ β) : Prop :=
  d'.entries = d.entries.filter fun e => bound ≤ (e.1 : ℤ)

/-- At most one entry lies below the bound. -/
def AtMostOneBelow (bound : ℤ) (d : SortedDict ℕ β) : Prop :=
  (d.entries.filter fun e => (e.1 : ℤ) < bound).length ≤ 1

instance (bound : ℤ) (d : SortedDict ℕ β) : Decidable (AtMostOneBelow bound d) :=
  inferInstanceAs (Decidable (_ ≤ 1))

theorem pruneBuffer_eq {useless : ℤ → ℤ} {d : SortedDict ℕ β} {first last : ℕ}
    (hfirst : d.firstKey? = some first) (hlast : d.lastKey? = some last) :
    pruneBuffer useless d = some (if first ≤ useless last then
      d.deleteWalking fun k => (k : ℤ) < useless last else d) := by
  simp only [pruneBuffer, hfirst, hlast, Option.bind_some]
  split_ifs
  · exact SortedDict.deleteFrom_zero _ d
  · rfl

/-- The first key is the least. -/
theorem firstKey?_le {d : SortedDict ℕ β} {first : ℕ} (h : d.firstKey? = some first)
    {e : ℕ × β} (he : e ∈ d.entries) : first ≤ e.1 := by
  obtain ⟨e₀, he₀, rfl⟩ := Option.map_eq_some_iff.mp h
  obtain ⟨es, hes⟩ := List.head?_eq_some_iff.mp he₀
  have hsorted := d.sorted
  rw [hes] at hsorted he
  rcases List.mem_cons.mp he with rfl | he
  · exact le_rfl
  · exact le_of_lt ((List.pairwise_cons.mp hsorted).1 e he)

theorem pruneBuffer_spec (useless : ℤ → ℤ) {d : SortedDict ℕ β} {last : ℕ}
    (hlast : d.lastKey? = some last) : ∃ d', pruneBuffer useless d = some d' ∧
      (PrunedTo (useless last) d d' ↔ AtMostOneBelow (useless last) d) := by
  obtain hnil | ⟨first, _, hfirst, -⟩ := d.entries_eq_nil_or_ends
  · simp [SortedDict.lastKey?, hnil] at hlast
  refine ⟨_, pruneBuffer_eq hfirst hlast, ?_⟩
  unfold PrunedTo AtMostOneBelow
  split_ifs with hle
  · have hkept : (d.entries.filter fun e => useless last ≤ (e.1 : ℤ)) =
        d.entries.filter fun e => !decide ((e.1 : ℤ) < useless last) := by
      refine List.filter_congr fun e _ => ?_
      rw [← decide_not, decide_eq_decide, not_lt]
    rw [hkept]
    refine SortedDict.entries_deleteWalking_iff fun a b hab hb => ?_
    have hb := of_decide_eq_true hb
    exact decide_eq_true (by omega)
  · -- the first key is above the bound, and so are all
    have habove : ∀ e ∈ d.entries, useless last ≤ (e.1 : ℤ) := fun e he => by
      have := firstKey?_le hfirst he
      omega
    refine iff_of_true (List.filter_eq_self.mpr fun e he => decide_eq_true (habove e he)).symm ?_
    rw [List.filter_eq_nil_iff.mpr fun e he => by simpa using habove e he]
    exact Nat.zero_le 1

/-- With a first and a last id this is the function of the timer callback. -/
theorem deleteUselessDescriptors?_eq {s : Sender D} {first last : ℕ}
    (hfirst : s.globalDescriptorsBuffer.firstKey? = some first)
    (hlast : s.globalDescriptorsBuffer.lastKey? = some last) :
    deleteUselessDescriptors? s = some (deleteUselessDescriptors s first last) := by
  unfold deleteUselessDescriptors? deleteUselessDescriptors
  rw [pruneBuffer_eq hfirst hlast, Option.map_some]
  dsimp only
  split_ifs <;> rfl

theorem deleteUselessInterRobotMatches?_eq {s : MatchSender} {first last : ℕ}
    (hfirst : s.interRobotMatchesBuffer.firstKey? = some first)
    (hlast : s.interRobotMatchesBuffer.lastKey? = some last) :
    deleteUselessInterRobotMatches? s = some (s.deleteUselessInterRobotMatches first last) := by
  unfold deleteUselessInterRobotMatches? MatchSender.deleteUselessInterRobotMatches
  rw [pruneBuffer_eq hfirst hlast, Option.map_some]
  dsimp only
  split_ifs <;> rfl

/-- **When pruning is exact**: neither function raises, and a buffer keeps exactly the entries from
the bound on if and only if at most one entry lies below it. -/
theorem deleteUseless_exact_iff (s : Sender D) (m : MatchSender) {lastKf lastMatch : ℕ}
    (hs : s.globalDescriptorsBuffer.lastKey? = some lastKf)
    (hm : m.interRobotMatchesBuffer.lastKey? = some lastMatch) :
    (∃ s', deleteUselessDescriptors? s = some s' ∧
      (PrunedTo (s.neighborManager.uselessDescriptors lastKf) s.globalDescriptorsBuffer
          s'.globalDescriptorsBuffer ↔
        AtMostOneBelow (s.neighborManager.uselessDescriptors lastKf) s.globalDescriptorsBuffer)) ∧
    ∃ m', deleteUselessInterRobotMatches? m = some m' ∧
      (PrunedTo (m.neighborManager.uselessMatches lastMatch) m.interRobotMatchesBuffer
          m'.interRobotMatchesBuffer ↔
        AtMostOneBelow (m.neighborManager.uselessMatches lastMatch) m.interRobotMatchesBuffer) := by
  obtain ⟨d, hd, hexact⟩ := pruneBuffer_spec s.neighborManager.uselessDescriptors hs
  obtain ⟨d', hd', hexact'⟩ := pruneBuffer_spec m.neighborManager.uselessMatches hm
  refine ⟨⟨{ s with globalDescriptorsBuffer := d }, ?_, hexact⟩,
    { m with interRobotMatchesBuffer := d' }, ?_, hexact'⟩
  · rw [deleteUselessDescriptors?, hd]
    rfl
  · rw [deleteUselessInterRobotMatches?, hd']
    rfl

/-- A robot without neighbors, with the keyframes `0, …, n - 1` in its buffer. -/
def alone (n : ℕ) : Sender Unit where
  neighborManager :=
    { robotId := 0
      maxNbRobots := 1
      neighborsMonitors := fun rid =>
        { isEnabled := true
          originRobotId := rid
          initDelaySec := 0
          maxDelaySec := 10
          initTime := 0
          latestTimeStamp := 0 } }
  globalDescriptorsBuffer := (List.range n).foldl (fun d k => d.set k ⟨k, 0, ()⟩) ∅

/-- The same, with as many matches. -/
def aloneMatches (n : ℕ) : MatchSender where
  neighborManager := (alone n).neighborManager
  interRobotMatchesBuffer := (List.range n).foldl (fun d k => d.set k ⟨0, k, 1, k, 1⟩) ∅

/-- One entry below the bound is deleted. -/
theorem deleteUseless_exact_two :
    (∃ s', deleteUselessDescriptors? (alone 2) = some s' ∧
      PrunedTo 1 (alone 2).globalDescriptorsBuffer s'.globalDescriptorsBuffer) ∧
    ∃ m', deleteUselessInterRobotMatches? (aloneMatches 2) = some m' ∧
      PrunedTo 1 (aloneMatches 2).interRobotMatchesBuffer m'.interRobotMatchesBuffer := by
  obtain ⟨⟨s', hs', hexact⟩, m', hm', hexact'⟩ :=
    deleteUseless_exact_iff (alone 2) (aloneMatches 2) (show _ = some 1 by decide)
      (show _ = some 1 by decide)
  exact ⟨⟨s', hs', hexact.mpr (by decide)⟩, m', hm', hexact'.mpr (by decide)⟩

/-- Of two entries below the bound, the second one stays. -/
theorem not_deleteUseless_exact :
    ¬ ∀ (s : Sender Unit) (m : MatchSender) (lastKf lastMatch : ℕ),
      s.globalDescriptorsBuffer.lastKey? = some lastKf →
      m.interRobotMatchesBuffer.lastKey? = some lastMatch →
      (∃ s', deleteUselessDescriptors? s = some s' ∧
        PrunedTo (s.neighborManager.uselessDescriptors lastKf) s.globalDescriptorsBuffer
          s'.globalDescriptorsBuffer) ∧
      ∃ m', deleteUselessInterRobotMatches? m = some m' ∧
        PrunedTo (m.neighborManager.uselessMatches lastMatch) m.interRobotMatchesBuffer
          m'.interRobotMatchesBuffer := by
  intro h
  obtain ⟨⟨s', hs', hpruned⟩, -⟩ := h (alone 3) (aloneMatches 3) 2 2 (by decide) (by decide)
  have hkept : (deleteUselessDescriptors? (alone 3)).map
      (fun s => s.globalDescriptorsBuffer.keys) = some [1, 2] := by decide
  rw [hs'] at hkept
  have hkeys : s'.globalDescriptorsBuffer.keys = [1, 2] := Option.some.inj hkept
  unfold SortedDict.keys at hkeys
  rw [hpruned] at hkeys
  revert hkeys
  decide

end RoverSwarm.Exchange
