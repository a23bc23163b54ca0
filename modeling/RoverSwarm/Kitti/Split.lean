import RoverSwarm.Kitti.Patch

/-!
# Kitti.Split — two overlapping halves of a bag

`split_overlapping_bag.py` numbers the messages of every split topic as it reads them, and writes
the first of them to one bag and the last of them to another.  The bags should share as many frames
as asked for; half of them, rounded down, are on either side of the middle, so of an odd number one
is missing.
-/

namespace RoverSwarm.Kitti.Split

open PatchTf (BagMessage onTopic onTopic_concat)

variable {β : Type*}

/-- A bag: the topics it declares, and its messages in the order in which they are read. -/
structure Bag (β : Type*) where
  topics : List String
  messages : List (BagMessage β)
  declared : ∀ msg ∈ messages, msg.topic ∈ topics

/-- `SPLIT_TOPICS`. -/
def splitTopics : List String := ["/velodyne_points", "/imu/data", "/gps/fix"]

/-- `REFERENCE_TOPIC`. -/
def referenceTopic : String := "/velodyne_points"

/-- The messages a reader returns that `_open_reader` gives a filter. -/
def read (topics : List String) (messages : List (BagMessage β)) : List (BagMessage β) :=
  messages.filter fun msg => msg.topic ∈ topics

/-- `_count_frames`. -/
def countFrames (messages : List (BagMessage β)) : ℕ := (read [referenceTopic] messages).length

/-- `a_end`: bag A has the frames below. -/
def aEnd (nFrames : ℕ) (overlapFrames : ℤ) : ℤ :=
  min nFrames ((nFrames / 2 : ℕ) + overlapFrames / 2)

/-- `b_start`: bag B has the frames from here on. -/
def bStart (nFrames : ℕ) (overlapFrames : ℤ) : ℤ := max 0 ((nFrames / 2 : ℕ) - overlapFrames / 2)

/-- The variables of the loop: `per_topic_frame`, and what has been written to the two bags. -/
structure Loop (β : Type*) where
  perTopicFrame : String → ℤ := fun _ => -1
  writerA : List (BagMessage β) := []
  writerB : List (BagMessage β) := []

/-- One turn of the loop. -/
def Loop.step (aEnd bStart : ℤ) (l : Loop β) (msg : BagMessage β) : Loop β :=
  let frame := l.perTopicFrame msg.topic + 1
  { perTopicFrame := Function.update l.perTopicFrame msg.topic frame
    writerA := if frame < aEnd then l.writerA ++ [msg] else l.writerA
    writerB := if frame ≥ bStart then l.writerB ++ [msg] else l.writerB }

/-- `split_bag`: the messages of bag A and bag B; `none` if a topic is missing. -/
def splitBag (inputBag : Bag β) (overlapFrames : ℤ) :
    Option (List (BagMessage β) × List (BagMessage β)) :=
  if ∀ topic ∈ splitTopics, topic ∈ inputBag.topics then
    let nFrames := countFrames inputBag.messages
    let l := (read splitTopics inputBag.messages).foldl
      (Loop.step (aEnd nFrames overlapFrames) (bStart nFrames overlapFrames)) {}
    some (l.writerA, l.writerB)
  else none

/-! ### Two windows of every topic -/

/-- What the loop has written for the messages `msgs`. -/
structure Windows (p q : ℤ) (msgs : List (BagMessage β)) (l : Loop β) : Prop where
  frame : ∀ topic, l.perTopicFrame topic = (onTopic topic msgs).length - 1
  a_sublist : l.writerA.Sublist msgs
  b_sublist : l.writerB.Sublist msgs
  a_take : ∀ topic, onTopic topic l.writerA = (onTopic topic msgs).take p.toNat
  b_drop : ∀ topic, onTopic topic l.writerB = (onTopic topic msgs).drop q.toNat

/-- A writer that may take the next message. -/
theorem sublist_ite_concat {c : Prop} [Decidable c] {writer msgs : List (BagMessage β)}
    (h : writer.Sublist msgs) (msg : BagMessage β) :
    (if c then writer ++ [msg] else writer).Sublist (msgs ++ [msg]) := by
  split_ifs
  · exact h.append (List.Sublist.refl _)
  · exact h.trans (List.sublist_append_left _ _)

theorem onTopic_ite_of_ne {c : Prop} [Decidable c] (writer : List (BagMessage β))
    {msg : BagMessage β} {topic : String} (h : msg.topic ≠ topic) :
    onTopic topic (if c then writer ++ [msg] else writer) = onTopic topic writer := by
  split_ifs
  · rw [onTopic_concat, if_neg h]
  · rfl

/-- **Step lemma**. -/
theorem Windows.step {p q : ℤ} {msgs : List (BagMessage β)} {l : Loop β} (h : Windows p q msgs l)
    (msg : BagMessage β) : Windows p q (msgs ++ [msg]) (l.step p q msg) := by
  have hframe : l.perTopicFrame msg.topic + 1 = (onTopic msg.topic msgs).length := by
    rw [h.frame]
    omega
  refine ⟨fun topic => ?_, ?_, ?_, fun topic => ?_, fun topic => ?_⟩
  · show Function.update l.perTopicFrame msg.topic _ topic = _
    rw [onTopic_concat]
    by_cases htopic : msg.topic = topic
    · subst htopic
      rw [Function.update_self, if_pos rfl, List.length_append, List.length_singleton, hframe]
      omega
    · rw [Function.update_of_ne (Ne.symm htopic), if_neg htopic]
      exact h.frame topic
  · exact sublist_ite_concat h.a_sublist msg
  · exact sublist_ite_concat h.b_sublist msg
  · show onTopic topic (if l.perTopicFrame msg.topic + 1 < p then _ else _) = _
    have ha := h.a_take topic
    rw [hframe, onTopic_concat]
    by_cases htopic : msg.topic = topic
    · subst htopic
      rw [if_pos rfl]
      split_ifs with hlt
      · rw [onTopic_concat, if_pos rfl, ha, List.take_of_length_le (by omega),
          List.take_of_length_le (by rw [List.length_append, List.length_singleton]; omega)]
      · rw [ha, List.take_append_of_le_length (by omega)]
    · rw [if_neg htopic, onTopic_ite_of_ne _ htopic, ha]
  · show onTopic topic (if l.perTopicFrame msg.topic + 1 ≥ q then _ else _) = _
    have hb := h.b_drop topic
    rw [hframe, onTopic_concat]
    by_cases htopic : msg.topic = topic
    · subst htopic
      rw [if_pos rfl]
      split_ifs with hge
      · rw [onTopic_concat, if_pos rfl, hb, List.drop_append_of_le_length (by omega)]
      · rw [hb, List.drop_of_length_le (by omega),
          List.drop_of_length_le (by rw [List.length_append, List.length_singleton]; omega)]
    · rw [if_neg htopic, onTopic_ite_of_ne _ htopic, hb]

/-- **Loop lemma**. -/
theorem windows_foldl (p q : ℤ) (msgs : List (BagMessage β)) :
    Windows p q msgs (msgs.foldl (Loop.step p q) {}) := by
  induction msgs using List.reverseRecOn with
  | nil => exact ⟨fun _ => rfl, List.Sublist.refl _, List.Sublist.refl _,
      fun _ => List.take_nil.symm, fun _ => List.drop_nil.symm⟩
  | append_singleton msgs msg ih =>
    rw [List.foldl_append]
    exact ih.step msg

/-! ### What is shared -/

/-- The bags `a` and `b` share `shared` frames: each has messages of the source in their order, one
the first and the other the last of every split topic, and together they have all. -/
structure Overlapping (messages a b : List (BagMessage β)) (shared : ℤ) : Prop where
  a_sublist : a.Sublist (read splitTopics messages)
  b_sublist : b.Sublist (read splitTopics messages)
  a_prefix : ∀ topic ∈ splitTopics, onTopic topic a <+: onTopic topic messages
  b_suffix : ∀ topic ∈ splitTopics, onTopic topic b <:+ onTopic topic messages
  covered : ∀ msg ∈ read splitTopics messages, msg ∈ a ∨ msg ∈ b
  length : ∀ topic ∈ splitTopics, ((onTopic topic a).length : ℤ) + (onTopic topic b).length =
    (onTopic topic messages).length + shared

/-- The number of frames in both windows. -/
theorem aEnd_sub_bStart (n : ℕ) {overlap : ℤ} (h : 0 ≤ overlap) :
    0 ≤ bStart n overlap ∧ bStart n overlap ≤ aEnd n overlap ∧ aEnd n overlap ≤ n ∧
      (aEnd n overlap - bStart n overlap = min overlap n ↔ Even overlap ∨ n < overlap) := by
  unfold aEnd bStart
  rw [Int.even_iff]
  omega

theorem onTopic_read {topic : String} (htopic : topic ∈ splitTopics)
    (messages : List (BagMessage β)) :
    onTopic topic (read splitTopics messages) = onTopic topic messages := by
  unfold onTopic read
  rw [List.filter_filter]
  refine List.filter_congr fun msg _ => ?_
  by_cases hmsg : msg.topic = topic
  · simp [hmsg, htopic]
  · simp [hmsg]

theorem mem_of_mem_onTopic {topic : String} {messages : List (BagMessage β)} {msg : BagMessage β}
    (h : msg ∈ onTopic topic messages) : msg ∈ messages := (List.mem_filter.mp h).1

/-- What is written, whatever the overlap: the windows, which leave no frame out. -/
theorem overlapping_of_windows {p q : ℤ} {messages : List (BagMessage β)} {n : ℕ} {l : Loop β}
    (h : Windows p q (read splitTopics messages) l) (hq : 0 ≤ q) (hqp : q ≤ p) (hp : p ≤ n)
    (hn : ∀ topic ∈ splitTopics, (onTopic topic messages).length = n) :
    Overlapping messages l.writerA l.writerB (p - q) := by
  have ha : ∀ topic ∈ splitTopics, onTopic topic l.writerA =
      (onTopic topic messages).take p.toNat := by
    intro topic htopic
    rw [h.a_take, onTopic_read htopic]
  have hb : ∀ topic ∈ splitTopics, onTopic topic l.writerB =
      (onTopic topic messages).drop q.toNat := by
    intro topic htopic
    rw [h.b_drop, onTopic_read htopic]
  refine ⟨h.a_sublist, h.b_sublist, fun topic htopic => ?_, fun topic htopic => ?_,
    fun msg hmsg => ?_, fun topic htopic => ?_⟩
  · rw [ha topic htopic]
    exact List.take_prefix _ _
  · rw [hb topic htopic]
    exact List.drop_suffix _ _
  · have htopic : msg.topic ∈ splitTopics := by simpa using (List.mem_filter.mp hmsg).2
    have hmem : msg ∈ onTopic msg.topic messages :=
      List.mem_filter.mpr ⟨(List.mem_filter.mp hmsg).1, by simp⟩
    rw [← List.take_append_drop p.toNat (onTopic msg.topic messages), List.mem_append] at hmem
    rcases hmem with hmem | hmem
    · rw [← ha _ htopic] at hmem
      exact Or.inl (mem_of_mem_onTopic hmem)
    · have hlater : msg ∈ (onTopic msg.topic messages).drop q.toNat :=
        (List.drop_sublist_drop_left _ (by omega)).mem hmem
      rw [← hb _ htopic] at hlater
      exact Or.inr (mem_of_mem_onTopic hlater)
  · rw [ha topic htopic, hb topic htopic, List.length_take, List.length_drop, hn topic htopic]
    omega

/-- **What `split_bag` writes** for a bag with `n` frames on every split topic. -/
theorem splitBag_eq {inputBag : Bag β} {n : ℕ}
    (htopics : ∀ topic ∈ splitTopics, topic ∈ inputBag.topics)
    (hn : ∀ topic ∈ splitTopics, (onTopic topic inputBag.messages).length = n) {overlap : ℤ}
    (h : 0 ≤ overlap) :
    ∃ a b, splitBag inputBag overlap = some (a, b) ∧
      Overlapping inputBag.messages a b (aEnd n overlap - bStart n overlap) := by
  have hcount : countFrames inputBag.messages = n := by
    rw [← hn referenceTopic (by decide), countFrames, read, onTopic]
    simp only [List.mem_singleton]
  obtain ⟨hq, hqp, hp, -⟩ := aEnd_sub_bStart n h
  refine ⟨_, _, if_pos htopics, ?_⟩
  rw [hcount]
  exact overlapping_of_windows (windows_foldl _ _ _) hq hqp hp hn

/-- **The overlap is as asked** if and only if it is even, or larger than the bag. -/
theorem splitBag_iff {inputBag : Bag β} {n : ℕ}
    (htopics : ∀ topic ∈ splitTopics, topic ∈ inputBag.topics)
    (hn : ∀ topic ∈ splitTopics, (onTopic topic inputBag.messages).length = n) {overlap : ℤ}
    (h : 0 ≤ overlap) :
    (∃ a b, splitBag inputBag overlap = some (a, b) ∧
      Overlapping inputBag.messages a b (min overlap n)) ↔ Even overlap ∨ n < overlap := by
  obtain ⟨a, b, hsplit, hover⟩ := splitBag_eq htopics hn h
  rw [← (aEnd_sub_bStart n h).2.2.2]
  constructor
  · rintro ⟨a', b', hsplit', hover'⟩
    obtain ⟨rfl, rfl⟩ := Prod.mk.inj (Option.some.inj (hsplit.symm.trans hsplit'))
    have hlength := hover.length referenceTopic (by decide)
    have hlength' := hover'.length referenceTopic (by decide)
    omega
  · intro heq
    exact ⟨a, b, hsplit, heq ▸ hover⟩

/-- `n` frames of the three topics, one topic after the other, and an image. -/
def frames (n : ℕ) : Bag ℕ where
  topics := "/camera2/left/image_raw" :: splitTopics
  messages := ⟨"/camera2/left/image_raw", 0, 0⟩ ::
    splitTopics.flatMap fun topic => (List.range n).map fun i => ⟨topic, i, i⟩
  declared msg hmsg := by
    rcases List.mem_cons.mp hmsg with rfl | hmsg
    · exact List.mem_cons_self
    · obtain ⟨topic, htopic, hmsg⟩ := List.mem_flatMap.mp hmsg
      obtain ⟨i, -, rfl⟩ := List.mem_map.mp hmsg
      exact List.mem_cons_of_mem _ htopic

/-- Two of three frames are shared. -/
theorem splitBag_three : ∃ a b, splitBag (frames 3) 2 = some (a, b) ∧
    Overlapping (frames 3).messages a b 2 :=
  (splitBag_iff (show ∀ topic ∈ splitTopics, topic ∈ (frames 3).topics by decide) (n := 3)
    (by decide) (by decide)).mpr (Or.inl even_two)

/-- One shared frame is asked for, and none is shared. -/
theorem not_overlapping : ¬ ∀ (inputBag : Bag ℕ) (n : ℕ) (overlap : ℤ),
    (∀ topic ∈ splitTopics, topic ∈ inputBag.topics) →
    (∀ topic ∈ splitTopics, (onTopic topic inputBag.messages).length = n) → 0 ≤ overlap →
    ∃ a b, splitBag inputBag overlap = some (a, b) ∧
      Overlapping inputBag.messages a b (min overlap n) := by
  intro hall
  obtain ⟨a, b, hsplit, hover⟩ := hall (frames 3) 3 1 (by decide) (by decide) (by decide)
  have hlengths : (splitBag (frames 3) 1).map (fun r =>
      ((onTopic "/imu/data" r.1).length, (onTopic "/imu/data" r.2).length)) = some (1, 2) := by
    decide
  rw [hsplit, Option.map_some, Option.some.injEq, Prod.mk.injEq] at hlengths
  have hlength := hover.length "/imu/data" (by decide)
  rw [hlengths.1, hlengths.2] at hlength
  exact absurd hlength (by decide)

end RoverSwarm.Kitti.Split
