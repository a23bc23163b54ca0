import RoverSwarm.Exchange.Delivery

/-!
# Exchange.PublishedOnce — what one timer callback publishes

`global_descriptors_timer_callback` hands `dict_to_list_chunks` the distance from the first buffered
id to the first one to send, and the chunker compares it with the ids themselves.  As long as the
buffer starts at zero the two agree.  Afterwards the range starts too early, and what all neighbors
know already is published again.
-/

namespace RoverSwarm.Exchange

open Transition

variable {D : Type*} {R : Params}

/-! ### Chunks -/

theorem length_of_mem_chunksFrom {β : Type*} (start : ℤ) {n : ℕ} (es : List (ℕ × β))
    {tmp : List β} (htmp : tmp.length < n) :
    ∀ c ∈ chunksFrom start n es tmp, c.length ≤ n := by
  induction es generalizing tmp with
  | nil =>
    intro c hc
    rw [chunksFrom] at hc
    split_ifs at hc
    · obtain rfl := List.mem_singleton.mp hc
      omega
    · exact absurd hc List.not_mem_nil
  | cons e es ih =>
    obtain ⟨k, v⟩ := e
    have hlength : (tmp ++ [v]).length = tmp.length + 1 := by simp
    rw [chunksFrom]
    split_ifs with hk hn
    · intro c hc
      rcases List.mem_cons.mp hc with rfl | hc
      · exact hn.le
      · exact ih (show [].length < n by simp; omega) c hc
    · exact ih (by omega)
    · exact ih htmp

/-- The chunks are small enough, unless there is no chunk size. -/
theorem chunksFrom_le_iff {β : Type*} (start : ℤ) (n : ℕ) (es : List (ℕ × β)) :
    (∀ c ∈ chunksFrom start n es [], c.length ≤ n) ↔
      0 < n ∨ (chunksFrom start n es []).flatten = [] := by
  have hne := chunksFrom_ne_nil start n es []
  constructor
  · intro h
    rcases Nat.eq_zero_or_pos n with rfl | hn
    · refine .inr (List.flatten_eq_nil_iff.mpr fun c hc => ?_)
      exact List.length_eq_zero_iff.mp (Nat.le_zero.mp (h c hc))
    · exact .inl hn
  · rintro (hn | hnil) c hc
    · exact length_of_mem_chunksFrom start es hn c hc
    · exact absurd (List.flatten_eq_nil_iff.mp hnil c hc) (hne c hc)

/-! ### One call -/

/-- A neighbor is alive that has not been sent the id. -/
def Sender.Unsent (s : Sender D) (now : ℕ → ℚ) (id : ℕ) : Prop :=
  ∃ i ∈ s.neighborManager.others, s.neighborManager.alive now i = true ∧
    (s.neighborManager.neighborsMonitors i).lastKeyframeSent < id

instance (s : Sender D) (now : ℕ → ℚ) (id : ℕ) : Decidable (s.Unsent now id) :=
  inferInstanceAs (Decidable (∃ i ∈ s.neighborManager.others, _))

/-- The call publishes exactly the buffered descriptors above the least `last_keyframe_sent` of the
neighbors alive, each once and in order, in chunks of at most `maxElems`. -/
def PublishesOnce (s : Sender D) (maxElems : ℕ) (now now' : ℕ → ℚ) : Prop :=
  (globalDescriptorsTimerCallback s maxElems now now').2.flatten =
      (s.globalDescriptorsBuffer.entries.filter fun e => s.Unsent now e.1).map Prod.snd ∧
    ∀ msg ∈ (globalDescriptorsTimerCallback s maxElems now now').2, msg.length ≤ maxElems

/-- The least `last_keyframe_sent` of the neighbors alive, and the last id. -/
def Sender.known (s : Sender D) (now : ℕ → ℚ) (last : ℕ) : ℤ :=
  s.neighborManager.leastSent (s.neighborManager.others.filter (s.neighborManager.alive now)) last

/-- Every buffered id that the neighbors alive have been sent lies below what they know by the first
buffered id at least; and there is a chunk size, or nothing to publish. -/
structure StartsRight (s : Sender D) (maxElems : ℕ) (now : ℕ → ℚ) : Prop where
  below : ∀ first ∈ s.globalDescriptorsBuffer.firstKey?,
    ∀ last ∈ s.globalDescriptorsBuffer.lastKey?, ∀ e ∈ s.globalDescriptorsBuffer.entries,
      ¬ s.Unsent now e.1 → (e.1 + first : ℤ) ≤ s.known now last
  chunks : 0 < maxElems ∨ ∀ e ∈ s.globalDescriptorsBuffer.entries, ¬ s.Unsent now e.1

theorem unsent_iff {s : Sender D} {now : ℕ → ℚ} {last : ℕ}
    (hlast : s.globalDescriptorsBuffer.lastKey? = some last) {e : ℕ × GlobalDescriptor D}
    (he : e ∈ s.globalDescriptorsBuffer.entries) :
    s.Unsent now e.1 ↔ s.known now last < e.1 := by
  have hle : (e.1 : ℤ) ≤ last := by exact_mod_cast SortedDict.le_lastKey? hlast he
  rw [← not_iff_not, not_lt]
  unfold Sender.known Sender.Unsent
  rw [NeighborManager.le_leastSent_iff]
  constructor
  · intro h
    refine ⟨hle, fun i hi => ?_⟩
    obtain ⟨hi, halive⟩ := List.mem_filter.mp hi
    by_contra hlt
    exact h ⟨i, hi, halive, not_le.mp hlt⟩
  · rintro ⟨-, hall⟩ ⟨i, hi, halive, hlt⟩
    exact absurd (hall i (List.mem_filter.mpr ⟨hi, halive⟩)) (not_le.mpr hlt)

/-- Two filters, one of them weaker, keep the same values if they keep the same entries. -/
theorem map_filter_eq_iff {α β : Type*} {f : α → β} {p q : α → Bool} {l : List α}
    (h : ∀ x ∈ l, p x = true → q x = true) :
    (l.filter q).map f = (l.filter p).map f ↔ ∀ x ∈ l, q x = true → p x = true := by
  have hfilter : l.filter p = (l.filter q).filter p := by
    rw [List.filter_filter]
    refine List.filter_congr fun x hx => ?_
    cases hp : p x with
    | false => rfl
    | true => simp [h x hx hp]
  rw [hfilter]
  constructor
  · intro heq x hx hq
    have hlength := congrArg List.length heq
    rw [List.length_map, List.length_map, eq_comm, List.length_filter_eq_length_iff] at hlength
    exact hlength x (List.mem_filter.mpr ⟨hx, hq⟩)
  · intro hall
    rw [List.filter_eq_self.mpr fun x hx =>
      hall x (List.mem_filter.mp hx).1 (List.mem_filter.mp hx).2]

section Ends

variable {s : Sender D} {maxElems : ℕ} {now now' : ℕ → ℚ} {first last : ℕ}
  (hfirst : s.globalDescriptorsBuffer.firstKey? = some first)
  (hlast : s.globalDescriptorsBuffer.lastKey? = some last)

include hfirst hlast in
/-- The range starts where the first id not sent is, if it starts late enough; it never starts too
late. -/
theorem flatten_eq_unsent_iff : (globalDescriptorsTimerCallback s maxElems now now').2.flatten =
      (s.globalDescriptorsBuffer.entries.filter fun e => s.Unsent now e.1).map Prod.snd ↔
    ∀ e ∈ s.globalDescriptorsBuffer.entries, ¬ s.Unsent now e.1 →
      (e.1 + first : ℤ) ≤ s.known now last := by
  have hflatten : (globalDescriptorsTimerCallback s maxElems now now').2.flatten =
      (s.globalDescriptorsBuffer.entries.filter fun e =>
        s.known now last + 1 - first ≤ (e.1 : ℤ)).map Prod.snd :=
    timerCallback_flatten hfirst hlast
  have hwider : ∀ e ∈ s.globalDescriptorsBuffer.entries, decide (s.Unsent now e.1) = true →
      decide (s.known now last + 1 - first ≤ (e.1 : ℤ)) = true := by
    intro e he hunsent
    have := (unsent_iff hlast he).mp (of_decide_eq_true hunsent)
    exact decide_eq_true (by omega)
  rw [hflatten, map_filter_eq_iff hwider]
  constructor
  · intro hrange e he hknown
    by_contra hlt
    exact hknown (of_decide_eq_true (hrange e he (decide_eq_true (by omega))))
  · intro hbelow e he hstart
    have hstart := of_decide_eq_true hstart
    refine decide_eq_true ?_
    by_contra hknown
    have := hbelow e he hknown
    omega

include hfirst hlast in
theorem length_le_maxElems_iff : (∀ msg ∈ (globalDescriptorsTimerCallback s maxElems now now').2,
      msg.length ≤ maxElems) ↔
    0 < maxElems ∨ (globalDescriptorsTimerCallback s maxElems now now').2.flatten = [] := by
  simp only [globalDescriptorsTimerCallback, hfirst, hlast, dictToListChunks]
  exact chunksFrom_le_iff _ _ _

include hfirst hlast in
/-- What a call with a buffer publishes, and where its range starts. -/
theorem publishesOnce_iff_of_ends :
    PublishesOnce s maxElems now now' ↔ StartsRight s maxElems now := by
  have hempty : (globalDescriptorsTimerCallback s maxElems now now').2.flatten =
        (s.globalDescriptorsBuffer.entries.filter fun e => s.Unsent now e.1).map Prod.snd →
      ((globalDescriptorsTimerCallback s maxElems now now').2.flatten = [] ↔
        ∀ e ∈ s.globalDescriptorsBuffer.entries, ¬ s.Unsent now e.1) := by
    intro hall
    rw [hall, List.map_eq_nil_iff, List.filter_eq_nil_iff]
    simp
  unfold PublishesOnce
  rw [length_le_maxElems_iff hfirst hlast, and_congr_right fun hall => or_congr_right (hempty hall),
    flatten_eq_unsent_iff hfirst hlast]
  constructor
  · rintro ⟨hbelow, hchunk⟩
    refine ⟨fun first' hf last' hl => ?_, hchunk⟩
    obtain rfl := Option.some.inj (hfirst.symm.trans hf)
    obtain rfl := Option.some.inj (hlast.symm.trans hl)
    exact hbelow
  · rintro ⟨hbelow, hchunk⟩
    exact ⟨hbelow first hfirst last hlast, hchunk⟩

end Ends

/-- **When a call publishes right.** -/
theorem publishesOnce_iff_startsRight (s : Sender D) (maxElems : ℕ) (now now' : ℕ → ℚ) :
    PublishesOnce s maxElems now now' ↔ StartsRight s maxElems now := by
  obtain hnil | ⟨first, last, hfirst, hlast⟩ := s.globalDescriptorsBuffer.entries_eq_nil_or_ends
  · have hnone : s.globalDescriptorsBuffer.firstKey? = none := by
      simp [SortedDict.firstKey?, hnil]
    have hmsgs : (globalDescriptorsTimerCallback s maxElems now now').2 = [] := by
      simp only [globalDescriptorsTimerCallback, hnone]
    refine iff_of_true ⟨?_, ?_⟩ ⟨?_, ?_⟩
    · rw [hmsgs, hnil]
      rfl
    · rw [hmsgs]
      exact fun _ hmsg => absurd hmsg List.not_mem_nil
    · exact fun _ hf => absurd (hnone.symm.trans hf) (by simp)
    · exact .inr fun e he => absurd (hnil ▸ he) List.not_mem_nil
  · exact publishesOnce_iff_of_ends hfirst hlast

/-! ### Runs -/

/-- A timer callback starts its range right. -/
def TimerStartsRight (R : Params) (s : Net D) : Event D → Prop
  | .timer now _ => StartsRight s.sender R.maxElems now
  | _ => True

/-- **Published once**: all timer callbacks of a run publish exactly what some neighbor alive has
not been sent if and only if every one of them starts its range right. -/
theorem publishesOnce_iff (R : Params) (es : List (Event D)) :
    (∀ pre now now', pre ++ [.timer now now'] <+: es →
      PublishesOnce ((network D R).after pre).sender R.maxElems now now') ↔
      (network D R).Always (TimerStartsRight R) es := by
  rw [Process.always_iff]
  constructor
  · intro h pre e hp
    cases e with
    | timer now now' => exact (publishesOnce_iff_startsRight _ _ now now').mp (h pre now now' hp)
    | addKeyframe | heartbeat | connect | disconnect | deliver => trivial
  · exact fun h pre now now' hp =>
      (publishesOnce_iff_startsRight _ _ now now').mpr (h pre (.timer now now') hp)

/-- Two keyframes are published to a neighbor, and the first one is deleted.  Then the buffer starts
at one, and the second keyframe is published again. -/
theorem not_publishesOnce :
    ¬ ∀ (R : Params) (es pre : List (Event Unit)) (now now' : ℕ → ℚ),
      pre ++ [.timer now now'] <+: es →
      PublishesOnce ((network Unit R).after pre).sender R.maxElems now now' := by
  intro h
  have hagain := (h ⟨0, 2, 10, true, 0, 10, 0⟩ _
    [.addKeyframe () 0, .addKeyframe () 1, .heartbeat 1 1 1 1, .timer (fun _ => 2) (fun _ => 2)]
    (fun _ => 2) (fun _ => 2) (List.prefix_refl _)).1
  revert hagain
  decide +kernel

end RoverSwarm.Exchange
