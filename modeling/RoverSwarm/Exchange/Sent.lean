import RoverSwarm.Exchange.Delivery
import RoverSwarm.Exchange.Matches

/-!
# Exchange.Sent — what the timers send was in the buffers

Neither timer adds anything to its buffer, and both send entries of it, whatever the monitors say.
-/

namespace RoverSwarm.Exchange

open Selection (EdgeInterRobot)
open WalkRemove

/-- What is left of a buffer, and what is sent, was in the buffer. -/
structure SendsFrom {β : Type*} (buffer buffer' : SortedDict ℕ β) (msgs : List (List β)) : Prop where
  kept : buffer'.entries ⊆ buffer.entries
  sent : ∀ msg ∈ msgs, ∀ v ∈ msg, v ∈ buffer.entries.map Prod.snd

theorem SendsFrom.nothing {β : Type*} (buffer : SortedDict ℕ β) : SendsFrom buffer buffer [] :=
  ⟨List.Subset.refl _, fun _ h => absurd h List.not_mem_nil⟩

theorem mem_dictToListChunks {β : Type*} {d : SortedDict ℕ β} {start : ℤ} {n : ℕ} {c : List β}
    (hc : c ∈ dictToListChunks d start n) : ∀ v ∈ c, v ∈ d.entries.map Prod.snd := by
  intro v hv
  have hflatten : v ∈ (dictToListChunks d start n).flatten := List.mem_flatten.mpr ⟨c, hc, hv⟩
  rw [dictToListChunks, chunksFrom_flatten, List.nil_append] at hflatten
  obtain ⟨x, hx, rfl⟩ := List.mem_map.mp hflatten
  exact List.mem_map_of_mem (List.mem_of_mem_filter hx)

theorem deleteWalking_subset {β : Type*} (d : SortedDict ℕ β) (p : ℕ → Bool) :
    (d.deleteWalking p).entries ⊆ d.entries := (SortedDict.walkDelete_sublist p d.entries).subset

/-! ### The descriptors -/

section Descriptors

variable {D : Type*}

theorem deleteUselessDescriptors_subset (s : Sender D) (first last : ℕ) :
    (deleteUselessDescriptors s first last).globalDescriptorsBuffer.entries ⊆
      s.globalDescriptorsBuffer.entries := by
  unfold deleteUselessDescriptors
  dsimp only
  split_ifs
  · exact deleteWalking_subset _ _
  · exact List.Subset.refl _

theorem deleteUselessDescriptors_neighborManager (s : Sender D) (first last : ℕ) :
    (deleteUselessDescriptors s first last).neighborManager = s.neighborManager := by
  unfold deleteUselessDescriptors
  dsimp only
  split_ifs <;> rfl

theorem globalDescriptorsTimerCallback_sendsFrom (s : Sender D) (maxElems : ℕ) (now now' : ℕ → ℚ) :
    SendsFrom s.globalDescriptorsBuffer
      (globalDescriptorsTimerCallback s maxElems now now').1.globalDescriptorsBuffer
      (globalDescriptorsTimerCallback s maxElems now now').2 := by
  unfold globalDescriptorsTimerCallback
  split
  · exact ⟨deleteUselessDescriptors_subset _ _ _, fun msg hmsg => mem_dictToListChunks hmsg⟩
  · exact .nothing _

/-- Only the monitors change. -/
theorem globalDescriptorsTimerCallback_neighborManager (s : Sender D) (maxElems : ℕ)
    (now now' : ℕ → ℚ) :
    (globalDescriptorsTimerCallback s maxElems now now').1.neighborManager.robotId =
        s.neighborManager.robotId ∧
      (globalDescriptorsTimerCallback s maxElems now now').1.neighborManager.maxNbRobots =
        s.neighborManager.maxNbRobots := by
  unfold globalDescriptorsTimerCallback
  split
  · dsimp only
    rw [deleteUselessDescriptors_neighborManager]
    exact ⟨rfl, rfl⟩
  · exact ⟨rfl, rfl⟩

theorem globalDescriptorsTimerCallback_ne_nil (s : Sender D) (maxElems : ℕ) (now now' : ℕ → ℚ) :
    ∀ msg ∈ (globalDescriptorsTimerCallback s maxElems now now').2, msg ≠ [] := by
  unfold globalDescriptorsTimerCallback
  split
  · exact chunksFrom_ne_nil _ _ _ _
  · exact fun _ h => absurd h List.not_mem_nil

end Descriptors

/-! ### The matches -/

section Matches

theorem mem_removeKnown {neighborsInRange : List ℕ} {c : List EdgeInterRobot} {m : EdgeInterRobot}
    (hm : m ∈ removeKnown neighborsInRange c) : m ∈ c := by
  rcases mem_walk hm with hm | ⟨m', hm', heq⟩
  · exact absurd hm List.not_mem_nil
  · obtain rfl : m = m' := heq.elim id id
    exact hm'

theorem mem_removeKnownMatches {neighborsInRange : List ℕ} {chunks : List (List EdgeInterRobot)}
    {c : List EdgeInterRobot} (hc : c ∈ removeKnownMatches neighborsInRange chunks) :
    ∃ c' ∈ chunks, c ⊆ c' := by
  rcases mem_walk hc with hc | ⟨c', hc', heq⟩
  · exact absurd hc List.not_mem_nil
  · refine ⟨c', hc', ?_⟩
    rcases heq with rfl | rfl
    · exact List.Subset.refl c
    · exact fun _ => mem_removeKnown

theorem mem_selectedChunks {s : MatchSender} {maxElems : ℕ} {now now' : ℕ → ℚ}
    {c : List EdgeInterRobot} (hc : c ∈ selectedChunks s maxElems now now') :
    ∀ m ∈ c, m ∈ s.interRobotMatchesBuffer.entries.map Prod.snd := by
  unfold selectedChunks at hc
  split at hc
  · exact mem_dictToListChunks hc
  · exact absurd hc List.not_mem_nil

theorem deleteUselessInterRobotMatches_subset (s : MatchSender) (first last : ℕ) :
    (s.deleteUselessInterRobotMatches first last).interRobotMatchesBuffer.entries ⊆
      s.interRobotMatchesBuffer.entries := by
  unfold MatchSender.deleteUselessInterRobotMatches
  dsimp only
  split_ifs
  · exact deleteWalking_subset _ _
  · exact List.Subset.refl _

theorem interRobotMatchesTimerCallback_subset (s : MatchSender) (maxElems : ℕ)
    (now now' now'' : ℕ → ℚ) :
    (interRobotMatchesTimerCallback s maxElems now now' now'').1.interRobotMatchesBuffer.entries ⊆
      s.interRobotMatchesBuffer.entries := by
  unfold interRobotMatchesTimerCallback
  split
  · exact deleteUselessInterRobotMatches_subset _ _ _
  · exact List.Subset.refl _

theorem interRobotMatchesTimerCallback_neighborManager (s : MatchSender) (maxElems : ℕ)
    (now now' now'' : ℕ → ℚ) :
    (interRobotMatchesTimerCallback s maxElems now now' now'').1.neighborManager.robotId =
        s.neighborManager.robotId ∧
      (interRobotMatchesTimerCallback s maxElems now now' now'').1.neighborManager.maxNbRobots =
        s.neighborManager.maxNbRobots := by
  unfold interRobotMatchesTimerCallback
  split
  · dsimp only
    unfold MatchSender.deleteUselessInterRobotMatches
    dsimp only
    split_ifs <;> exact ⟨rfl, rfl⟩
  · exact ⟨rfl, rfl⟩

/-- A match in a message is that of an entry of the buffer. -/
theorem mem_interRobotMatchesTimerCallback {s : MatchSender} {maxElems : ℕ}
    {now now' now'' : ℕ → ℚ} {msg : InterRobotMatches}
    (hmsg : msg ∈ (interRobotMatchesTimerCallback s maxElems now now' now'').2)
    {m : InterRobotMatch} (hm : m ∈ msg.matches_) :
    ∃ x ∈ s.interRobotMatchesBuffer.entries, m = edgeToMatch x.2 := by
  unfold interRobotMatchesTimerCallback at hmsg
  split at hmsg
  · obtain ⟨c, hc, rfl⟩ := List.mem_map.mp hmsg
    obtain ⟨edge, hedge, rfl⟩ := List.mem_map.mp hm
    have hchunk : ∃ c' ∈ selectedChunks s maxElems now now', c ⊆ c' := by
      split_ifs at hc
      · exact mem_removeKnownMatches hc
      · exact ⟨c, hc, List.Subset.refl c⟩
    obtain ⟨c', hc', hsub⟩ := hchunk
    obtain ⟨x, hx, rfl⟩ := List.mem_map.mp (mem_selectedChunks hc' edge (hsub hedge))
    exact ⟨x, hx, rfl⟩
  · exact absurd hmsg List.not_mem_nil

end Matches

end RoverSwarm.Exchange
