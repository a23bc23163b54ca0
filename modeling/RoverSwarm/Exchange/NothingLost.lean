import RoverSwarm.Exchange.Delivery

/-!
# Exchange.NothingLost — what the neighbors have handed over

From the streams of `Exchange.Delivery` to what the robots have really handed to
`add_other_robot_global_descriptor`: `pending` is what a robot has handed once the `n` oldest chunks
of its inbox are delivered, and no later step takes anything away from it.
-/

namespace RoverSwarm.Exchange

open Transition HighWater

variable {D : Type*} {R : Params} {s : Net D}

/-! ### Chunks on their way -/

def Event.delivers (r : ℕ) : Event D → Bool
  | .deliver rid => rid = r
  | _ => false

/-- What robot `r` has handed over once the `n` oldest chunks of its inbox are delivered. -/
def Net.pending (R : Params) (s : Net D) (r n : ℕ) : List (GlobalDescriptor D) :=
  (((s.receivers r).highWater R.robotId).drain GlobalDescriptor.key ((s.inbox r).take n)).log

theorem pending_zero (r : ℕ) : s.pending R r 0 = (s.receivers r).handed := rfl

theorem pending_length (r : ℕ) : s.pending R r (s.inbox r).length = (s.stream R r).log := by
  rw [Net.pending, List.take_length]
  rfl

theorem handed_prefix_stream (r : ℕ) : (s.receivers r).handed <+: (s.stream R r).log :=
  ((s.receivers r).highWater R.robotId).log_prefix_drain (s.inbox r)

/-- Chunks that arrive behind the first `n` make no difference. -/
theorem pending_congr {s' : Net D} {r n : ℕ} {msgs : List (List (GlobalDescriptor D))}
    (hn : n ≤ (s.inbox r).length) (hreceivers : s'.receivers r = s.receivers r)
    (hinbox : s'.inbox r = s.inbox r ++ msgs) :
    s'.pending R r n = s.pending R r n ∧ n ≤ (s'.inbox r).length := by
  unfold Net.pending
  rw [hreceivers, hinbox, List.take_append_of_le_length hn, List.length_append]
  exact ⟨rfl, by omega⟩

/-- A step that delivers nothing to `r` only appends to its inbox. -/
theorem step_inbox {e : Event D} {r : ℕ} (h : e.delivers r = false) :
    (s.step R e).1.receivers r = s.receivers r ∧
      ∃ msgs, (s.step R e).1.inbox r = s.inbox r ++ msgs := by
  cases e with
  | addKeyframe _ _ | heartbeat _ _ _ _ | connect _ | disconnect _ =>
    exact ⟨rfl, [], (List.append_nil _).symm⟩
  | timer now now' =>
    refine ⟨rfl, if s.connected r then (s.step R (.timer now now')).2 else [], ?_⟩
    simp only [Net.step]
    split_ifs
    · rfl
    · exact (List.append_nil _).symm
  | deliver rid =>
    have hrid : r ≠ rid := fun heq => by simp [Event.delivers, heq] at h
    cases hin : s.inbox rid with
    | nil =>
      rw [step_deliver_nil hin]
      exact ⟨rfl, [], (List.append_nil _).symm⟩
    | cons chunk rest =>
      rw [step_deliver_cons hin]
      exact ⟨Function.update_of_ne hrid _ _, [], by simp [Function.update_of_ne hrid]⟩

/-- **Step lemma**: what is pending stays pending, one delivery closer. -/
theorem pending_step (hw : WellFormed R s) {r n : ℕ} (hr : r ∈ R.neighbors)
    (hn : n ≤ (s.inbox r).length) (e : Event D) :
    s.pending R r n <+: (s.step R e).1.pending R r (n - if e.delivers r then 1 else 0) ∧
      n - (if e.delivers r then 1 else 0) ≤ ((s.step R e).1.inbox r).length := by
  by_cases he : e.delivers r = true
  · obtain rfl : e = .deliver r := by
      cases e <;> simp_all [Event.delivers]
    rw [if_pos he]
    cases hin : s.inbox r with
    | nil =>
      rw [step_deliver_nil hin]
      have hn0 : n = 0 := by simpa [hin] using hn
      subst hn0
      exact ⟨List.prefix_refl _, Nat.zero_le _⟩
    | cons chunk rest =>
      have hhead := hw.highWater_head hr hin
      rw [step_deliver_cons hin]
      unfold Net.pending
      dsimp only
      rw [Function.update_self, Function.update_self, hhead, hin]
      cases n with
      | zero => exact ⟨Receiver.log_prefix_drain _ [chunk], Nat.zero_le _⟩
      | succ n => exact ⟨List.prefix_refl _, by simpa [hin] using hn⟩
  · rw [if_neg he, Nat.sub_zero]
    obtain ⟨hreceivers, msgs, hinbox⟩ := step_inbox (s := s) (R := R) (Bool.eq_false_iff.mpr he)
    obtain ⟨heq, hle⟩ := pending_congr (R := R) hn hreceivers hinbox
    exact ⟨heq ▸ List.prefix_refl _, hle⟩

/-- **Run lemma**: after as many deliveries to `r` as there were chunks in its inbox, it has handed
over all they hold. -/
theorem pending_run {es fs : List (Event D)} {r : ℕ} (hr : r ∈ R.neighbors)
    (hwf : ∀ pre, pre <+: es ++ fs → WellFormed R ((network D R).after pre)) {n : ℕ}
    (hn : n ≤ (((network D R).after es).inbox r).length) :
    ((network D R).after es).pending R r n <+:
        ((network D R).after (es ++ fs)).pending R r (n - fs.countP (Event.delivers r)) ∧
      n - fs.countP (Event.delivers r) ≤ (((network D R).after (es ++ fs)).inbox r).length := by
  induction fs using List.reverseRecOn with
  | nil =>
    rw [List.append_nil, List.countP_nil, Nat.sub_zero]
    exact ⟨List.prefix_refl _, hn⟩
  | append_singleton fs e ih =>
    rw [← List.append_assoc] at hwf ⊢
    obtain ⟨hpre, hle⟩ := ih fun pre hp => hwf pre (hp.trans (List.prefix_append _ _))
    obtain ⟨hstep, hle'⟩ := pending_step (hwf _ (List.prefix_append _ _)) hr hle e
    have hcount : n - (fs ++ [e]).countP (Event.delivers r) =
        n - fs.countP (Event.delivers r) - if e.delivers r then 1 else 0 := by
      rw [List.countP_append, List.countP_singleton, Nat.sub_sub]
    rw [Process.after_concat, hcount]
    exact ⟨hpre.trans hstep, hle'⟩

/-! ### Nothing is lost -/

/-- After every timer callback of the run at which a neighbor is alive, and once the chunks then in
its inbox are delivered, the neighbor has handed over every descriptor added before the callback,
each once and in increasing order. -/
def NothingLost (R : Params) (es : List (Event D)) : Prop :=
  ∀ (pre : List (Event D)) (now now' : ℕ → ℚ) (fs : List (Event D)), ∀ r ∈ R.neighbors,
    es = pre ++ [.timer now now'] ++ fs →
    (((network D R).after pre).sender.neighborManager.alive now r = true ∨
      ((network D R).after pre).sender.neighborManager.alive now' r = true) →
    (((network D R).after (pre ++ [.timer now now'])).inbox r).length ≤
      fs.countP (Event.delivers r) →
    ((network D R).after pre).added <+: (((network D R).after es).receivers r).handed ∧
      Increasing GlobalDescriptor.key (((network D R).after es).receivers r).handed

/-- What a neighbor has handed over is increasing. -/
theorem Good.handed_increasing (h : Good R s) {r : ℕ} (hr : r ∈ R.neighbors) :
    Increasing GlobalDescriptor.key (s.receivers r).handed := by
  have hstream : Increasing GlobalDescriptor.key (s.stream R r).log := by
    rw [(h.synced.sync r hr).log]
    exact h.synced.added.filter _
  exact List.Pairwise.sublist (handed_prefix_stream r).sublist hstream

/-- The buffer keeps the newest descriptor, so an empty buffer means that none was added. -/
theorem Synced.added_eq_nil (h : Synced R s) {r : ℕ} (hr : r ∈ R.neighbors)
    (hnil : s.sender.globalDescriptorsBuffer.entries = []) : s.added = [] := by
  have hlt : ∀ d ∈ s.added, d.key < (s.stream R r).mark := by
    intro d hd
    rcases h.kept d hd with hbuf | hsent
    · exact absurd (hnil ▸ hbuf) List.not_mem_nil
    · exact (hsent r hr).trans_le (h.sent r hr)
  refine List.eq_nil_iff_forall_not_mem.mpr fun d hd => ?_
  have hd := hlt d hd
  rcases (h.sync r hr).mark with hm | ⟨d', hd', hm⟩
  · have : (0 : ℤ) ≤ d.key := Int.natCast_nonneg _
    omega
  · exact absurd hm (hlt d' hd').ne

/-- After a timer callback at which it is alive, the stream of a neighbor is complete. -/
theorem Good.stream_timer_alive (h : Good R s) {now now' : ℕ → ℚ}
    (hassumed : Assumed s (.timer now now')) (hgap : NoGap R s (.timer now now')) {r : ℕ}
    (hr : r ∈ R.neighbors)
    (halive : s.sender.neighborManager.alive now r = true ∨
      s.sender.neighborManager.alive now' r = true) :
    ((s.step R (.timer now now')).1.stream R r).log = s.added := by
  rcases s.sender.globalDescriptorsBuffer.entries_eq_nil_or_ends with hnil | ⟨first, last, hf, hl⟩
  · rw [step_timer_empty hnil, (h.synced.sync r hr).log, h.synced.added_eq_nil hr hnil]
    rfl
  · exact stream_log_of_alive h.wellFormed h.synced hassumed hgap hr halive hf hl

/-- **Nothing is lost** in a run that leaves no gap. -/
theorem nothingLost_of_noGap {es : List (Event D)}
    (h : (network D R).Always (fun s e => Assumed s e ∧ NoGap R s e) es) : NothingLost R es := by
  intro pre now now' fs r hr heq halive hcount
  have hgood : ∀ gs, gs <+: es → Good R ((network D R).after gs) :=
    fun gs hp => good_of_always (h.of_prefix hp)
  refine ⟨?_, (hgood es (List.prefix_refl _)).handed_increasing hr⟩
  subst heq
  have hpre : pre ++ [.timer now now'] <+: pre ++ [.timer now now'] ++ fs := List.prefix_append _ _
  obtain ⟨-, hassumed, hgap⟩ := (Process.always_concat _ _).mp (h.of_prefix hpre)
  have hstream := (hgood pre ((List.prefix_append _ _).trans hpre)).stream_timer_alive
    hassumed hgap hr halive
  obtain ⟨hpending, -⟩ := pending_run hr (fun gs hp => (hgood gs hp).wellFormed)
    (le_refl (((network D R).after (pre ++ [.timer now now'])).inbox r).length)
  rw [pending_length, Nat.sub_eq_zero_of_le hcount, pending_zero, Process.after_concat] at hpending
  exact hstream ▸ hpending

/-! ### A gap -/

instance (s : Net D) : (e : Event D) → Decidable (Assumed s e)
  | .addKeyframe _ kfId => inferInstanceAs (Decidable (∀ d ∈ s.added, d.keyframeId < kfId))
  | .timer now now' => inferInstanceAs (Decidable (∀ r ∈ s.sender.neighborManager.others,
      s.sender.neighborManager.alive now r = true ∨ s.sender.neighborManager.alive now' r = true →
        s.connected r = true))
  | .heartbeat .. | .connect _ | .disconnect _ | .deliver _ => isTrue trivial

instance (R : Params) (s : Net D) : (e : Event D) → Decidable (NoGap R s e)
  | .timer now now' => inferInstanceAs (Decidable (
      ∀ first ∈ s.sender.globalDescriptorsBuffer.firstKey?,
      ∀ last ∈ s.sender.globalDescriptorsBuffer.lastKey?,
      ∀ r ∈ R.neighbors, s.connected r = true → s.sender.neighborManager.alive now r = false →
        (s.sender.neighborManager.alive now' r = true ∨
          ∃ d ∈ s.lacking R r, s.sender.rangeStart first last now ≤ d.key) →
        ∀ d ∈ s.lacking R r, s.sender.rangeStart first last now ≤ d.key))
  | .addKeyframe .. | .heartbeat .. | .connect _ | .disconnect _ | .deliver _ => isTrue trivial

/-- Robot 0 and two neighbors. -/
def three : Params where
  robotId := 0
  maxNbRobots := 3
  maxElems := 10
  enableNeighborMonitoring := true
  initDelaySec := 1
  maxDelaySec := 100
  initTime := 0

/-- The timer callback fires at the time `t`. -/
def timerAt (t : ℚ) : Event Unit := .timer (fun _ => t) fun _ => t

/-- Robot 2 connects after robot 1 has been sent keyframe 0. -/
def lateConnection : List (Event Unit) :=
  [.connect 1, .heartbeat 1 0 0 0, .addKeyframe () 0, timerAt 10, .connect 2, .addKeyframe () 1]

/-- Robot 2 is alive at its first timer callback. -/
theorem nothingLost_of_noGap_alive : NothingLost three
    (lateConnection ++ [.heartbeat 2 0 10 10, timerAt 20, .deliver 2]) :=
  nothingLost_of_noGap (by decide +kernel)

/-- Robot 2 overhears keyframe 1 before its first heartbeat, and keyframe 0 is lost. -/
theorem not_nothingLost : ¬ ∀ (R : Params) (es : List (Event Unit)),
    (network Unit R).Always Assumed es → NothingLost R es := by
  intro h
  let pre := lateConnection ++ [timerAt 20, .heartbeat 2 0 20 20]
  have hlost := h three (pre ++ [timerAt 30] ++ [.deliver 2, .deliver 2]) (by decide +kernel)
    pre (fun _ => 30) (fun _ => 30) [.deliver 2, .deliver 2] 2 (by decide) rfl
    (Or.inl (by decide +kernel)) (by decide +kernel)
  exact absurd hlost.1 (by decide +kernel)

end RoverSwarm.Exchange
