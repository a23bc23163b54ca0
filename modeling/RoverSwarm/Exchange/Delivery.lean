import RoverSwarm.Exchange.Descriptors

/-!
# Exchange.Delivery — no global descriptor is lost, and when one is

Every receiver is a high-water mark receiver of the sender's list of descriptors (`highWater`,
`globalDescriptorCallback_highWater`).  Its `stream` is what it will have handed over once its inbox
is delivered.  The invariant `Synced` says that all streams are in sync with the sender and that
the sender has neither deleted nor marked as sent what a stream lacks.  A timer callback keeps it
for the neighbors that are alive, since the range starts at their `last_keyframe_sent`; a neighbor
that is connected but not alive overhears a range that was not selected for it, and the streams
stay in sync as long as such a range leaves no gap (`NoGap`).
-/

namespace RoverSwarm.Exchange

open Transition HighWater

variable {D : Type*} {R : Params} {s : Net D}

/-! ### Chunks -/

/-- The chunks hold the values from `start` on, in order. -/
theorem chunksFrom_flatten {β : Type*} (start : ℤ) (n : ℕ) (es : List (ℕ × β)) (tmp : List β) :
    (chunksFrom start n es tmp).flatten =
      tmp ++ (es.filter fun e => start ≤ (e.1 : ℤ)).map Prod.snd := by
  induction es generalizing tmp with
  | nil =>
    rw [chunksFrom]
    split_ifs with h
    · simp
    · simp [List.length_eq_zero_iff.mp (Nat.eq_zero_of_not_pos h)]
  | cons e es ih =>
    obtain ⟨k, v⟩ := e
    rw [chunksFrom]
    split_ifs with hk hn
    · rw [List.flatten_cons, ih, List.filter_cons_of_pos (by simpa using hk)]
      simp
    · rw [ih, List.filter_cons_of_pos (by simpa using hk)]
      simp
    · rw [ih, List.filter_cons_of_neg (by simpa using hk)]

theorem chunksFrom_ne_nil {β : Type*} (start : ℤ) (n : ℕ) (es : List (ℕ × β)) (tmp : List β) :
    ∀ c ∈ chunksFrom start n es tmp, c ≠ [] := by
  induction es generalizing tmp with
  | nil =>
    intro c hc
    rw [chunksFrom] at hc
    split_ifs at hc with h
    · rw [List.mem_singleton.mp hc]
      exact List.length_pos_iff.mp h
    · exact absurd hc List.not_mem_nil
  | cons e es ih =>
    obtain ⟨k, v⟩ := e
    rw [chunksFrom]
    split_ifs
    · intro c hc
      rcases List.mem_cons.mp hc with rfl | hc
      · simp
      · exact ih [] c hc
    · exact ih _
    · exact ih _

/-! ### Receivers are high-water mark receivers -/

/-- What a receiver knows of the sender: the mark in the monitor, and what it has handed over. -/
def Receiver.highWater (r : Receiver D) (sender : ℕ) :
    HighWater.Receiver (GlobalDescriptor D) ℤ :=
  ⟨(r.neighborManager.neighborsMonitors sender).lastKeyframeReceived, r.handed⟩

theorem max_lastId_eq_top (m : ℤ) (msg : List (GlobalDescriptor D)) :
    max m (((msg.map GlobalDescriptor.key).max?).getD m) = top GlobalDescriptor.key m msg := by
  rw [top, ← List.foldl_map, List.foldl_max]

/-- **Refinement**: `global_descriptor_callback` on a chunk of the sender receives it. -/
theorem globalDescriptorCallback_highWater {r : Receiver D} {msg : List (GlobalDescriptor D)}
    {sender : ℕ} (hne : msg ≠ []) (hfrom : ∀ d ∈ msg, d.robotId = sender)
    (hown : r.neighborManager.robotId ≠ sender) :
    (globalDescriptorCallback r msg).highWater sender =
      (r.highWater sender).receive GlobalDescriptor.key msg := by
  obtain ⟨d, msg, rfl⟩ := List.exists_cons_of_ne_nil hne
  have hd : d.robotId = sender := hfrom d List.mem_cons_self
  subst hd
  simp only [globalDescriptorCallback, List.head?_cons, if_pos (Ne.symm hown), getUnknownRange,
    max_lastId_eq_top]
  ext1
  · simp [Receiver.highWater, NeighborManager.updateReceivedKfId]
  · rfl

theorem globalDescriptorCallback_robotId (r : Receiver D) (msg : List (GlobalDescriptor D)) :
    (globalDescriptorCallback r msg).neighborManager.robotId = r.neighborManager.robotId := by
  unfold globalDescriptorCallback
  split
  · rfl
  · split_ifs <;> rfl

/-! ### What a timer callback publishes -/

/-- The neighbors of the sender. -/
def Params.neighbors (R : Params) : List ℕ := (R.manager R.robotId).others

/-- Where the range of a timer callback starts: one above the least `last_keyframe_sent` of the
neighbors alive, less the first id in the buffer. -/
def Sender.rangeStart (s : Sender D) (first last : ℕ) (now : ℕ → ℚ) : ℤ :=
  s.neighborManager.leastSent
    (s.neighborManager.others.filter (s.neighborManager.alive now)) last + 1 - first

/-- The buffered descriptors from `start` on, in order. -/
def Sender.bufferedFrom (s : Sender D) (start : ℤ) : List (GlobalDescriptor D) :=
  (s.globalDescriptorsBuffer.entries.filter fun e => start ≤ (e.1 : ℤ)).map Prod.snd

/-- The descriptors published by a timer callback, in order. -/
theorem timerCallback_flatten {s : Sender D} {n first last : ℕ} {now now' : ℕ → ℚ}
    (hf : s.globalDescriptorsBuffer.firstKey? = some first)
    (hl : s.globalDescriptorsBuffer.lastKey? = some last) :
    (globalDescriptorsTimerCallback s n now now').2.flatten =
      s.bufferedFrom (s.rangeStart first last now) := by
  simp only [globalDescriptorsTimerCallback, hf, hl, dictToListChunks]
  exact chunksFrom_flatten _ _ _ _

/-! ### The invariant -/

/-- What robot `r` will have received once its inbox is delivered. -/
def Net.stream (R : Params) (s : Net D) (r : ℕ) : HighWater.Receiver (GlobalDescriptor D) ℤ :=
  ((s.receivers r).highWater R.robotId).drain GlobalDescriptor.key (s.inbox r)

/-- The sender's `last_keyframe_sent` for robot `r`. -/
def Net.sent (s : Net D) (r : ℕ) : ℤ :=
  (s.sender.neighborManager.neighborsMonitors r).lastKeyframeSent

/-- The ids do not change and the chunks come from the sender. -/
structure WellFormed (R : Params) (s : Net D) : Prop where
  robotId : s.sender.neighborManager.robotId = R.robotId
  others : s.sender.neighborManager.others = R.neighbors
  receivers : ∀ r, (s.receivers r).neighborManager.robotId = r
  added : ∀ d ∈ s.added, d.robotId = R.robotId
  inbox : ∀ r, ∀ c ∈ s.inbox r, c ≠ [] ∧ ∀ d ∈ c, d.robotId = R.robotId

/-- Every stream is in sync, what it lacks is buffered, and nothing it lacks counts as sent. -/
structure Synced (R : Params) (s : Net D) : Prop where
  added : Increasing GlobalDescriptor.key s.added
  buffer : ∀ e ∈ s.sender.globalDescriptorsBuffer.entries, e.2 ∈ s.added ∧ e.2.keyframeId = e.1
  kept : ∀ d ∈ s.added, (d.keyframeId, d) ∈ s.sender.globalDescriptorsBuffer.entries ∨
    ∀ r ∈ R.neighbors, d.key < s.sent r
  sync : ∀ r ∈ R.neighbors, InSync GlobalDescriptor.key (-1) s.added (s.stream R r)
  sent : ∀ r ∈ R.neighbors, s.sent r ≤ (s.stream R r).mark

/-- What the environment promises: keyframe ids increase, and a neighbor that is alive is
connected. -/
def Assumed (s : Net D) : Event D → Prop
  | .addKeyframe _ kfId => ∀ d ∈ s.added, d.keyframeId < kfId
  | .timer now now' => ∀ r ∈ s.sender.neighborManager.others,
    s.sender.neighborManager.alive now r = true ∨ s.sender.neighborManager.alive now' r = true →
      s.connected r = true
  | _ => True

/-- The descriptors never published to robot `r` while it was connected. -/
def Net.lacking (R : Params) (s : Net D) (r : ℕ) : List (GlobalDescriptor D) :=
  s.added.filter fun d => (s.stream R r).mark < d.key

/-- The range of a timer callback leaves no gap: a connected neighbor that is not alive when the
range is selected lacks nothing below the start of a range that reaches what it lacks; nor does it
if it turns alive before the second loop. -/
def NoGap (R : Params) (s : Net D) : Event D → Prop
  | .timer now now' =>
    ∀ first ∈ s.sender.globalDescriptorsBuffer.firstKey?,
    ∀ last ∈ s.sender.globalDescriptorsBuffer.lastKey?,
    ∀ r ∈ R.neighbors, s.connected r = true → s.sender.neighborManager.alive now r = false →
      (s.sender.neighborManager.alive now' r = true ∨
        ∃ d ∈ s.lacking R r, s.sender.rangeStart first last now ≤ d.key) →
      ∀ d ∈ s.lacking R r, s.sender.rangeStart first last now ≤ d.key
  | _ => True

theorem mem_lacking {r : ℕ} {d : GlobalDescriptor D} :
    d ∈ s.lacking R r ↔ d ∈ s.added ∧ (s.stream R r).mark < d.key := by
  simp [Net.lacking]

/-- What a stream has not passed is in the buffer. -/
theorem Synced.mem_buffer (h : Synced R s) {r : ℕ} (hr : r ∈ R.neighbors)
    {d : GlobalDescriptor D} (hd : d ∈ s.added) (hm : (s.stream R r).mark ≤ d.key) :
    (d.keyframeId, d) ∈ s.sender.globalDescriptorsBuffer.entries := by
  rcases h.kept d hd with hbuf | hsent
  · exact hbuf
  · have := hsent r hr
    have := h.sent r hr
    omega

/-- No stream is past the last buffered descriptor. -/
theorem Synced.mark_le_last (h : Synced R s) {r last : ℕ} (hr : r ∈ R.neighbors)
    (hlast : s.sender.globalDescriptorsBuffer.lastKey? = some last) :
    (s.stream R r).mark ≤ last := by
  rcases (h.sync r hr).mark with hm | ⟨d, hd, hm⟩
  · omega
  · have hle : d.keyframeId ≤ last := SortedDict.le_lastKey? hlast (h.mem_buffer hr hd hm.ge)
    rw [← hm]
    exact Int.ofNat_le.mpr hle

/-- The buffered descriptors are added ones, in increasing order. -/
theorem Synced.bufferedFrom (h : Synced R s) (start : ℤ) :
    Increasing GlobalDescriptor.key (s.sender.bufferedFrom start) ∧
      s.sender.bufferedFrom start ⊆ s.added ∧
      ∀ d, d ∈ s.sender.bufferedFrom start ↔
        (d.keyframeId, d) ∈ s.sender.globalDescriptorsBuffer.entries ∧ start ≤ d.key := by
  refine ⟨?_, fun d hd => ?_, fun d => ⟨fun hd => ?_, fun hd => ?_⟩⟩
  · refine List.pairwise_map.mpr ((s.sender.globalDescriptorsBuffer.sorted.filter _).imp_of_mem ?_)
    intro e e' he he' hlt
    have hk := (h.buffer e (List.mem_filter.mp he).1).2
    have hk' := (h.buffer e' (List.mem_filter.mp he').1).2
    show (e.2.keyframeId : ℤ) < e'.2.keyframeId
    rw [hk, hk']
    exact_mod_cast hlt
  · obtain ⟨e, he, rfl⟩ := List.mem_map.mp hd
    exact (h.buffer e (List.mem_filter.mp he).1).1
  · obtain ⟨⟨k, d⟩, he, rfl⟩ := List.mem_map.mp hd
    obtain ⟨he, hstart⟩ := List.mem_filter.mp he
    have hk : d.keyframeId = k := (h.buffer _ he).2
    subst hk
    exact ⟨he, of_decide_eq_true hstart⟩
  · exact List.mem_map.mpr ⟨_, List.mem_filter.mpr ⟨hd.1, decide_eq_true hd.2⟩, rfl⟩

/-! ### The steps -/

theorem step_deliver_nil {rid : ℕ} (h : s.inbox rid = []) : (s.step R (.deliver rid)).1 = s := by
  simp [Net.step, h]

theorem step_deliver_cons {rid : ℕ} {chunk : List (GlobalDescriptor D)}
    {rest : List (List (GlobalDescriptor D))} (h : s.inbox rid = chunk :: rest) :
    (s.step R (.deliver rid)).1 =
      { s with
        inbox := Function.update s.inbox rid rest
        receivers := Function.update s.receivers rid
          (globalDescriptorCallback (s.receivers rid) chunk) } := by
  simp [Net.step, h]

/-- A delivery does not touch the sender. -/
theorem step_deliver_frame (R : Params) (rid : ℕ) :
    (s.step R (.deliver rid)).1.sender = s.sender ∧
      (s.step R (.deliver rid)).1.added = s.added := by
  cases hin : s.inbox rid with
  | nil => simp [step_deliver_nil hin]
  | cons chunk rest => simp [step_deliver_cons hin]

/-- Handling the chunk at the head of the inbox receives it. -/
theorem WellFormed.highWater_head (h : WellFormed R s) {r : ℕ} (hr : r ∈ R.neighbors)
    {chunk : List (GlobalDescriptor D)} {rest : List (List (GlobalDescriptor D))}
    (hin : s.inbox r = chunk :: rest) :
    (globalDescriptorCallback (s.receivers r) chunk).highWater R.robotId =
      ((s.receivers r).highWater R.robotId).receive GlobalDescriptor.key chunk := by
  obtain ⟨hne, hfrom⟩ := h.inbox r chunk (by simp [hin])
  refine globalDescriptorCallback_highWater hne hfrom ?_
  rw [h.receivers]
  exact of_decide_eq_true (List.mem_filter.mp hr).2

/-- Delivering to `rid` moves a chunk of its inbox into its receiver. -/
theorem stream_deliver (h : WellFormed R s) (rid : ℕ) {r : ℕ} (hr : r ∈ R.neighbors) :
    (s.step R (.deliver rid)).1.stream R r = s.stream R r := by
  cases hin : s.inbox rid with
  | nil => rw [step_deliver_nil hin]
  | cons chunk rest =>
    rw [step_deliver_cons hin]
    unfold Net.stream
    by_cases hrid : r = rid
    · subst hrid
      simp only [Function.update_self, h.highWater_head hr hin, hin]
      rfl
    · simp only [Function.update_of_ne hrid]

/-- A timer callback with a buffer from `first` to `last`. -/
theorem step_timer (R : Params) {first last : ℕ} (now now' : ℕ → ℚ)
    (hf : s.sender.globalDescriptorsBuffer.firstKey? = some first)
    (hl : s.sender.globalDescriptorsBuffer.lastKey? = some last) :
    ∃ msgs, msgs.flatten = s.sender.bufferedFrom (s.sender.rangeStart first last now) ∧
      (∀ c ∈ msgs, c ≠ []) ∧
      (s.step R (.timer now now')).1 = { s with
        sender := deleteUselessDescriptors { s.sender with neighborManager :=
          (s.sender.neighborManager.selectFromWhichKfToSend last now now').1 } first last
        inbox := fun r => if s.connected r then s.inbox r ++ msgs else s.inbox r } := by
  refine ⟨(globalDescriptorsTimerCallback s.sender R.maxElems now now').2,
    timerCallback_flatten hf hl, ?_, ?_⟩
  · simp only [globalDescriptorsTimerCallback, hf, hl]
    exact chunksFrom_ne_nil _ _ _ _
  · simp [Net.step, globalDescriptorsTimerCallback, hf, hl]

/-- Without a buffer a timer callback does nothing. -/
theorem step_timer_empty {now now' : ℕ → ℚ} (h : s.sender.globalDescriptorsBuffer.entries = []) :
    (s.step R (.timer now now')).1 = s := by
  simp [Net.step, globalDescriptorsTimerCallback, SortedDict.firstKey?, h]

/-! #### Timer callbacks -/

section Timer

variable {first last : ℕ} {now now' : ℕ → ℚ}

/-- The range starts at or below what an alive neighbor lacks. -/
theorem rangeStart_le_of_alive (hw : WellFormed R s) (h : Synced R s) {r : ℕ}
    (hr : r ∈ R.neighbors) (halive : s.sender.neighborManager.alive now r = true)
    {d : GlobalDescriptor D} (hd : d ∈ s.lacking R r) :
    s.sender.rangeStart first last now ≤ d.key := by
  have hmem : r ∈ s.sender.neighborManager.others.filter (s.sender.neighborManager.alive now) :=
    List.mem_filter.mpr ⟨hw.others ▸ hr, halive⟩
  have hmin : s.sender.neighborManager.leastSent _ last ≤ s.sent r :=
    NeighborManager.leastSent_le hmem
  have hsent := h.sent r hr
  have hlt := (mem_lacking.mp hd).2
  unfold Sender.rangeStart
  omega

/-- What one neighbor gets out of a timer callback: everything it lacks, or nothing new. -/
theorem receive_range (hw : WellFormed R s) (h : Synced R s) {r : ℕ} (hr : r ∈ R.neighbors)
    (hf : s.sender.globalDescriptorsBuffer.firstKey? = some first)
    (hl : s.sender.globalDescriptorsBuffer.lastKey? = some last) (hc : s.connected r = true)
    (hgap : NoGap R s (.timer now now')) :
    let q := (s.stream R r).receive GlobalDescriptor.key
      (s.sender.bufferedFrom (s.sender.rangeStart first last now))
    (q.log = s.added ∧ InSync GlobalDescriptor.key (-1) s.added q) ∨
      (s.sender.neighborManager.alive now r = false ∧
        s.sender.neighborManager.alive now' r = false ∧ q = s.stream R r) := by
  intro q
  obtain ⟨hinc, hsub, hmem⟩ := h.bufferedFrom (s.sender.rangeStart first last now)
  by_cases hall : ∀ d ∈ s.lacking R r, s.sender.rangeStart first last now ≤ d.key
  · left
    refine (h.sync r hr).receive_missing h.added hinc hsub fun d hd hlt => ?_
    exact (hmem d).mpr ⟨h.mem_buffer hr hd hlt.le, hall d (mem_lacking.mpr ⟨hd, hlt⟩)⟩
  · right
    have halive : s.sender.neighborManager.alive now r = false := by
      refine Bool.eq_false_iff.mpr fun ht => hall fun d hd => ?_
      exact rangeStart_le_of_alive hw h hr ht hd
    have hnot := fun hor => hall (hgap first hf last hl r hr hc halive hor)
    refine ⟨halive, Bool.eq_false_iff.mpr fun ht => hnot (Or.inl ht), ?_⟩
    refine Receiver.receive_old fun d hd => not_lt.mp fun hlt => hnot (Or.inr ⟨d, ?_, ?_⟩)
    · exact mem_lacking.mpr ⟨hsub hd, hlt⟩
    · exact ((hmem d).mp hd).2

theorem deleteUselessDescriptors_manager (s : Sender D) (first last : ℕ) :
    (deleteUselessDescriptors s first last).neighborManager = s.neighborManager := by
  unfold deleteUselessDescriptors
  dsimp only
  split_ifs <;> rfl

/-- Pruning deletes entries, and only below the bound. -/
theorem deleteUselessDescriptors_entries (s : Sender D) (first last : ℕ) :
    (deleteUselessDescriptors s first last).globalDescriptorsBuffer.entries ⊆
      s.globalDescriptorsBuffer.entries ∧
    ∀ e ∈ s.globalDescriptorsBuffer.entries,
      e ∈ (deleteUselessDescriptors s first last).globalDescriptorsBuffer.entries ∨
        (e.1 : ℤ) < s.neighborManager.uselessDescriptors last := by
  unfold deleteUselessDescriptors
  dsimp only
  split_ifs
  · refine ⟨(SortedDict.walkDelete_sublist _ _).subset, fun e he => ?_⟩
    rcases lt_or_ge (e.1 : ℤ) (s.neighborManager.uselessDescriptors last) with hlt | hge
    · exact Or.inr hlt
    · exact Or.inl (SortedDict.mem_walkDelete _ he (decide_eq_false (not_lt.mpr hge)))
  · exact ⟨List.Subset.refl _, fun e he => Or.inl he⟩

/-- The streams after a timer callback. -/
theorem stream_timer (now now' : ℕ → ℚ) (h : Synced R s)
    (hf : s.sender.globalDescriptorsBuffer.firstKey? = some first)
    (hl : s.sender.globalDescriptorsBuffer.lastKey? = some last) (r : ℕ) :
    (s.step R (.timer now now')).1.stream R r =
      if s.connected r then (s.stream R r).receive GlobalDescriptor.key
        (s.sender.bufferedFrom (s.sender.rangeStart first last now))
      else s.stream R r := by
  obtain ⟨msgs, hflat, -, heq⟩ := step_timer R now now' hf hl
  rw [heq]
  unfold Net.stream
  dsimp only
  split_ifs
  · rw [Receiver.drain_append, ← hflat]
    refine Receiver.drain_eq_receive _ ?_
    rw [hflat]
    exact (h.bufferedFrom _).1
  · rfl

/-- What counts as sent after a timer callback. -/
theorem sent_timer (now now' : ℕ → ℚ) (hw : WellFormed R s)
    (hf : s.sender.globalDescriptorsBuffer.firstKey? = some first)
    (hl : s.sender.globalDescriptorsBuffer.lastKey? = some last) {r : ℕ} (hr : r ∈ R.neighbors) :
    (s.step R (.timer now now')).1.sent r =
      if s.sender.neighborManager.alive now' r then (last : ℤ) else s.sent r := by
  obtain ⟨msgs, -, -, heq⟩ := step_timer R now now' hf hl
  rw [heq]
  unfold Net.sent
  dsimp only
  rw [deleteUselessDescriptors_manager]
  have hmem : r ∈ s.sender.neighborManager.others := hw.others ▸ hr
  simp only [NeighborManager.selectFromWhichKfToSend, hmem, true_and]
  split_ifs <;> rfl

/-- What counts as sent only grows. -/
theorem sent_le_sent_timer (now now' : ℕ → ℚ) (hw : WellFormed R s) (h : Synced R s)
    (hf : s.sender.globalDescriptorsBuffer.firstKey? = some first)
    (hl : s.sender.globalDescriptorsBuffer.lastKey? = some last) {r : ℕ} (hr : r ∈ R.neighbors) :
    s.sent r ≤ (s.step R (.timer now now')).1.sent r := by
  rw [sent_timer now now' hw hf hl hr]
  split_ifs
  · exact (h.sent r hr).trans (h.mark_le_last hr hl)
  · exact le_rfl

/-- What is pruned counts as sent to all. -/
theorem Synced.kept_timer (now now' : ℕ → ℚ) (hw : WellFormed R s) (h : Synced R s)
    (hf : s.sender.globalDescriptorsBuffer.firstKey? = some first)
    (hl : s.sender.globalDescriptorsBuffer.lastKey? = some last) (d : GlobalDescriptor D)
    (hd : d ∈ s.added) :
    (d.keyframeId, d) ∈
        (s.step R (.timer now now')).1.sender.globalDescriptorsBuffer.entries ∨
      ∀ r ∈ R.neighbors, d.key < (s.step R (.timer now now')).1.sent r := by
  rcases h.kept d hd with hbuf | hold
  · obtain ⟨msgs, -, -, heq⟩ := step_timer R now now' hf hl
    obtain ⟨-, hkept⟩ := deleteUselessDescriptors_entries
      { s.sender with neighborManager :=
        (s.sender.neighborManager.selectFromWhichKfToSend last now now').1 } first last
    rcases hkept _ hbuf with hin | hlt
    · exact Or.inl (by rw [heq]; exact hin)
    · refine Or.inr fun r hr => lt_of_lt_of_le hlt ?_
      rw [heq]
      unfold Net.sent
      dsimp only
      rw [deleteUselessDescriptors_manager]
      exact NeighborManager.leastSent_le (hw.others ▸ hr)
  · exact Or.inr fun r hr =>
      lt_of_lt_of_le (hold r hr) (sent_le_sent_timer now now' hw h hf hl hr)

/-- A stream gets all it lacks or nothing new. -/
theorem Synced.sync_timer (hw : WellFormed R s) (h : Synced R s)
    (hgap : NoGap R s (.timer now now'))
    (hf : s.sender.globalDescriptorsBuffer.firstKey? = some first)
    (hl : s.sender.globalDescriptorsBuffer.lastKey? = some last) {r : ℕ} (hr : r ∈ R.neighbors) :
    InSync GlobalDescriptor.key (-1) s.added ((s.step R (.timer now now')).1.stream R r) := by
  rw [stream_timer now now' h hf hl]
  split_ifs with hc
  · rcases receive_range hw h hr hf hl hc hgap with ⟨-, hsync⟩ | ⟨-, -, hsame⟩
    · exact hsync
    · rw [hsame]
      exact h.sync r hr
  · exact h.sync r hr

/-- What newly counts as sent is in the stream: the neighbor is alive, so it is connected. -/
theorem Synced.sent_le_mark_timer (hw : WellFormed R s) (h : Synced R s)
    (hassumed : Assumed s (.timer now now')) (hgap : NoGap R s (.timer now now'))
    (hf : s.sender.globalDescriptorsBuffer.firstKey? = some first)
    (hl : s.sender.globalDescriptorsBuffer.lastKey? = some last) {r : ℕ} (hr : r ∈ R.neighbors) :
    (s.step R (.timer now now')).1.sent r ≤ ((s.step R (.timer now now')).1.stream R r).mark := by
  rw [sent_timer now now' hw hf hl hr, stream_timer now now' h hf hl]
  split_ifs with halive hc hc
  · rcases receive_range hw h hr hf hl hc hgap with ⟨hlog, hsync⟩ | ⟨-, hdead, -⟩
    · obtain ⟨e, he, hlast⟩ := SortedDict.mem_of_lastKey? hl
      have hle := hsync.le_mark hlog (h.buffer e he).1
      have hid : (e.2.keyframeId : ℤ) = last := by rw [(h.buffer e he).2, hlast]
      exact hid ▸ hle
    · exact absurd halive (by simp [hdead])
  · exact absurd (hassumed r (hw.others ▸ hr) (Or.inr halive)) hc
  · exact (h.sent r hr).trans (le_top _ _)
  · exact h.sent r hr

/-- **Timer lemma**: a callback without a gap keeps the streams in sync. -/
theorem Synced.timer (hw : WellFormed R s) (h : Synced R s)
    (hassumed : Assumed s (.timer now now')) (hgap : NoGap R s (.timer now now'))
    (hf : s.sender.globalDescriptorsBuffer.firstKey? = some first)
    (hl : s.sender.globalDescriptorsBuffer.lastKey? = some last) :
    Synced R (s.step R (.timer now now')).1 := by
  obtain ⟨msgs, -, -, heq⟩ := step_timer R now now' hf hl
  have hadded : (s.step R (.timer now now')).1.added = s.added := by rw [heq]
  obtain ⟨hsub, -⟩ := deleteUselessDescriptors_entries
    { s.sender with neighborManager :=
      (s.sender.neighborManager.selectFromWhichKfToSend last now now').1 } first last
  refine ⟨by rw [hadded]; exact h.added, ?_, ?_, fun r hr => ?_, fun r hr => ?_⟩
  · rw [hadded, heq]
    exact fun e he => h.buffer e (hsub he)
  · rw [hadded]
    exact h.kept_timer now now' hw hf hl
  · rw [hadded]
    exact h.sync_timer hw hgap hf hl hr
  · exact h.sent_le_mark_timer hw hassumed hgap hf hl hr

/-- After a callback at which it is alive, a neighbor will have received everything. -/
theorem stream_log_of_alive (hw : WellFormed R s) (h : Synced R s)
    (hassumed : Assumed s (.timer now now')) (hgap : NoGap R s (.timer now now')) {r : ℕ}
    (hr : r ∈ R.neighbors)
    (halive : s.sender.neighborManager.alive now r = true ∨
      s.sender.neighborManager.alive now' r = true)
    (hf : s.sender.globalDescriptorsBuffer.firstKey? = some first)
    (hl : s.sender.globalDescriptorsBuffer.lastKey? = some last) :
    ((s.step R (.timer now now')).1.stream R r).log = s.added := by
  have hc := hassumed r (hw.others ▸ hr) halive
  rw [stream_timer now now' h hf hl, if_pos hc]
  rcases receive_range hw h hr hf hl hc hgap with ⟨hlog, -⟩ | ⟨hdead, hdead', -⟩
  · exact hlog
  · rw [hdead, hdead'] at halive
    exact absurd halive (by simp)

end Timer

/-! #### Other events -/

theorem Synced.congr {s' : Net D} (h : Synced R s) (hadded : s'.added = s.added)
    (hbuffer : s'.sender.globalDescriptorsBuffer = s.sender.globalDescriptorsBuffer)
    (hsent : ∀ r ∈ R.neighbors, s'.sent r = s.sent r)
    (hstream : ∀ r ∈ R.neighbors, s'.stream R r = s.stream R r) : Synced R s' := by
  refine ⟨?_, ?_, ?_, fun r hr => ?_, fun r hr => ?_⟩
  · rw [hadded]
    exact h.added
  · rw [hadded, hbuffer]
    exact h.buffer
  · rw [hadded, hbuffer]
    exact fun d hd => (h.kept d hd).imp_right fun hold r hr => hsent r hr ▸ hold r hr
  · rw [hadded, hstream r hr]
    exact h.sync r hr
  · rw [hsent r hr, hstream r hr]
    exact h.sent r hr

/-- A new keyframe goes into the buffer, and every stream lacks it. -/
theorem Synced.addKeyframe (h : Synced R s) {embedding : D} {kfId : ℕ}
    (hnew : ∀ d ∈ s.added, d.keyframeId < kfId) :
    Synced R (s.step R (.addKeyframe embedding kfId)).1 := by
  have hne : ∀ e ∈ s.sender.globalDescriptorsBuffer.entries, e.1 ≠ kfId := by
    intro e he
    obtain ⟨hadded, hid⟩ := h.buffer e he
    have := hnew _ hadded
    omega
  have hlt : ∀ d ∈ s.added, d.key < (kfId : ℤ) := fun d hd => Int.ofNat_lt.mpr (hnew d hd)
  refine ⟨h.added.concat hlt, fun e he => ?_, fun d hd => ?_, fun r hr => ?_, h.sent⟩
  · rcases (SortedDict.mem_set_iff hne).mp he with rfl | he
    · exact ⟨List.mem_append_right _ List.mem_cons_self, rfl⟩
    · exact ⟨List.mem_append_left _ (h.buffer e he).1, (h.buffer e he).2⟩
  · rcases List.mem_append.mp hd with hd | hd
    · exact (h.kept d hd).imp_left fun hin => (SortedDict.mem_set_iff hne).mpr (Or.inr hin)
    · obtain rfl := List.mem_singleton.mp hd
      exact Or.inl ((SortedDict.mem_set_iff hne).mpr (Or.inl rfl))
  · refine (h.sync r hr).concat ?_ hlt
    show (-1 : ℤ) < (kfId : ℤ)
    omega

/-! #### All steps -/

theorem WellFormed.timer (hw : WellFormed R s) (h : Synced R s) (now now' : ℕ → ℚ) :
    WellFormed R (s.step R (.timer now now')).1 := by
  rcases s.sender.globalDescriptorsBuffer.entries_eq_nil_or_ends with hnil | ⟨first, last, hf, hl⟩
  · rw [step_timer_empty hnil]
    exact hw
  · obtain ⟨msgs, hflat, hne, heq⟩ := step_timer R now now' hf hl
    rw [heq]
    refine ⟨?_, ?_, hw.receivers, hw.added, fun r c hc => ?_⟩
    · rw [deleteUselessDescriptors_manager]
      exact hw.robotId
    · rw [deleteUselessDescriptors_manager]
      exact hw.others
    · dsimp only at hc
      split_ifs at hc
      · rcases List.mem_append.mp hc with hc | hc
        · exact hw.inbox r c hc
        · refine ⟨hne c hc, fun d hd => hw.added d ?_⟩
          have hmem : d ∈ msgs.flatten := List.mem_flatten.mpr ⟨c, hc, hd⟩
          rw [hflat] at hmem
          exact (h.bufferedFrom _).2.1 hmem
      · exact hw.inbox r c hc

theorem WellFormed.deliver (hw : WellFormed R s) (rid : ℕ) :
    WellFormed R (s.step R (.deliver rid)).1 := by
  cases hin : s.inbox rid with
  | nil =>
    rw [step_deliver_nil hin]
    exact hw
  | cons chunk rest =>
    rw [step_deliver_cons hin]
    refine ⟨hw.robotId, hw.others, fun r => ?_, hw.added, fun r c hc => ?_⟩
    · dsimp only
      by_cases hrid : r = rid
      · subst hrid
        rw [Function.update_self, globalDescriptorCallback_robotId]
        exact hw.receivers r
      · rw [Function.update_of_ne hrid]
        exact hw.receivers r
    · dsimp only at hc
      by_cases hrid : r = rid
      · subst hrid
        rw [Function.update_self] at hc
        exact hw.inbox r c (hin ▸ List.mem_cons_of_mem _ hc)
      · rw [Function.update_of_ne hrid] at hc
        exact hw.inbox r c hc

/-- The invariants of a run. -/
structure Good (R : Params) (s : Net D) : Prop where
  wellFormed : WellFormed R s
  synced : Synced R s

theorem good_init (R : Params) : Good R (network D R).init where
  wellFormed := ⟨rfl, rfl, fun _ => rfl, fun _ hd => absurd hd List.not_mem_nil,
    fun _ _ hc => absurd hc List.not_mem_nil⟩
  synced := ⟨List.Pairwise.nil, fun _ he => absurd he List.not_mem_nil,
    fun _ hd => absurd hd List.not_mem_nil, fun _ _ => InSync.init _ _, fun _ _ => le_rfl⟩

/-- **Step lemma**, one case per event. -/
theorem Good.step (h : Good R s) {e : Event D} (hassumed : Assumed s e) (hgap : NoGap R s e) :
    Good R (s.step R e).1 := by
  obtain ⟨hw, hs⟩ := h
  cases e with
  | addKeyframe embedding kfId =>
    refine ⟨⟨hw.robotId, hw.others, hw.receivers, fun d hd => ?_, hw.inbox⟩,
      hs.addKeyframe hassumed⟩
    rcases List.mem_append.mp hd with hd | hd
    · exact hw.added d hd
    · rw [List.mem_singleton.mp hd]
      exact hw.robotId
  | heartbeat rid data now later =>
    refine ⟨⟨hw.robotId, hw.others, hw.receivers, hw.added, hw.inbox⟩,
      hs.congr rfl rfl (fun r _ => ?_) fun _ _ => rfl⟩
    unfold Net.sent Net.step
    dsimp only
    by_cases hrid : r = rid
    · subst hrid
      rw [Function.update_self, NeighborMonitor.heartbeatCallback_lastKeyframeSent]
    · rw [Function.update_of_ne hrid]
  | timer now now' =>
    refine ⟨hw.timer hs now now', ?_⟩
    rcases s.sender.globalDescriptorsBuffer.entries_eq_nil_or_ends with
      hnil | ⟨first, last, hf, hl⟩
    · rw [step_timer_empty hnil]
      exact hs
    · exact hs.timer hw hassumed hgap hf hl
  | connect rid | disconnect rid =>
    exact ⟨⟨hw.robotId, hw.others, hw.receivers, hw.added, hw.inbox⟩,
      hs.congr rfl rfl (fun _ _ => rfl) fun _ _ => rfl⟩
  | deliver rid =>
    obtain ⟨hsender, hadded⟩ := step_deliver_frame (s := s) R rid
    refine ⟨hw.deliver rid, hs.congr hadded ?_ (fun r _ => ?_) fun r hr => stream_deliver hw rid hr⟩
    · rw [hsender]
    · rw [Net.sent, hsender, Net.sent]

/-- **Run lemma**: the invariants hold in every run that leaves no gap. -/
theorem good_of_always {es : List (Event D)}
    (h : (network D R).Always (fun s e => Assumed s e ∧ NoGap R s e) es) :
    Good R ((network D R).after es) :=
  h.invariant (I := fun _ s => Good R s) (good_init R)
    fun _ _ hgood hC => hgood.step hC.1 hC.2

end RoverSwarm.Exchange
