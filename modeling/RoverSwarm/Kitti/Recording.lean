import RoverSwarm.Kitti

/-!
# Kitti.Recording — how far the recorder gets

`rec_callback` takes an element of half a dozen lists under one counter, and writes as it goes.  The
recording ends with the frame `counter_limit`, which knows the left images, the scans of the
velodyne and the OXTS entries, but not the right images, the times and the ground truth; an index
out of range ends it earlier, with an exception and a frame that is not complete.
-/

namespace RoverSwarm.Kitti.KittiRec

open Transition

/-! ### The callback, access by access -/

/-- What the callback does in order: it takes the element under the counter from a list with
`length` elements, or writes a message. -/
inductive Access
  | index (length : ℕ)
  | write (topic : String)

def Access.length? : Access → Option ℕ
  | .index length => some length
  | .write _ => none

def Access.topic? : Access → Option String
  | .index _ => none
  | .write topic => some topic

/-- `rec_callback`. -/
def accesses (k : KittiOdom) : List Access :=
  [.index k.timesFile.length, .index k.leftImgs, .index k.rightImgs,
    .write "/camera2/left/image_raw", .write "/camera3/right/image_raw",
    .write "/camera2/left/camera_info", .write "/camera3/right/camera_info"] ++
  k.velodyne.elim [] (fun v => [.index v.scans, .write "/velodyne_points"]) ++
  k.imu.elim [] (fun imu => [.index imu.oxtsFiles.length, .write "/imu/data", .write "/gps/fix"]) ++
  k.groundTruth.elim [] (fun poses =>
    [.index poses.length, .write "/car/base/odom", .write "/car/base/odom_path"]) ++
  -- the message has a transform for the velodyne and one for the pose
  if k.velodyne.isSome ∨ k.groundTruth.isSome then [.write "/tf"] else []

/-- The topics written to until the accesses end, or one of them raises; and whether none does. -/
def perform (counter : ℕ) : List Access → List String × Bool
  | [] => ([], true)
  | .index length :: rest => if counter < length then perform counter rest else ([], false)
  | .write topic :: rest => ((perform counter rest).1.cons topic, (perform counter rest).2)

/-- The recorder: the counter, the topics of the messages in the bag, whether the bag is open, and
how the recording has ended. -/
structure Recorder where
  counter : ℕ := 0
  written : List String := []
  bagOpen : Bool := true
  done : Bool := false
  raised : Bool := false

/-- A callback.  An exception leaves the loop of `main`, which closes the bag. -/
def Recorder.callback (k : KittiOdom) (s : Recorder) : Recorder :=
  let (topics, finished) := perform s.counter (accesses k)
  if !finished then
    { s with written := s.written ++ topics, bagOpen := false, raised := true }
  else if s.counter ≥ k.counterLimit then
    { s with
      counter := s.counter + 1, written := s.written ++ topics, bagOpen := false, done := true }
  else { s with counter := s.counter + 1, written := s.written ++ topics }

/-- The loop of `main`, for at most `fuel` callbacks. -/
def spin (k : KittiOdom) : ℕ → Recorder → Recorder
  | 0, s => s
  | fuel + 1, s => if s.done || s.raised then s else spin k fuel (s.callback k)

/-! ### Frames -/

/-- The lengths of the lists the configuration enables. -/
def lengths (k : KittiOdom) : List ℕ := (accesses k).filterMap Access.length?

/-- The topics the configuration enables. -/
def topics (k : KittiOdom) : List String :=
  ["/camera2/left/image_raw", "/camera3/right/image_raw", "/camera2/left/camera_info",
    "/camera3/right/camera_info"] ++
  (if k.velodyne.isSome then ["/velodyne_points"] else []) ++
  (if k.imu.isSome then ["/imu/data", "/gps/fix"] else []) ++
  (if k.groundTruth.isSome then ["/car/base/odom", "/car/base/odom_path"] else []) ++
  if k.velodyne.isSome ∨ k.groundTruth.isSome then ["/tf"] else []

/-- The frames all enabled lists have. -/
def frames (k : KittiOdom) : ℕ :=
  min (min k.leftImgs (min k.rightImgs k.timesFile.length))
    (min (k.velodyne.elim k.leftImgs Velodyne.scans)
      (min (k.imu.elim k.leftImgs fun imu => imu.oxtsFiles.length)
        (k.groundTruth.elim k.leftImgs List.length)))

/-- The frames up to `counter_limit`. -/
def limit (k : KittiOdom) : ℕ :=
  min k.leftImgs (min (k.velodyne.elim k.leftImgs Velodyne.scans)
    (k.imu.elim k.leftImgs fun imu => imu.oxtsFiles.length))

theorem le_limit_iff {k : KittiOdom} {n : ℕ} : n ≤ limit k ↔
    n ≤ k.leftImgs ∧ n ≤ k.velodyne.elim k.leftImgs Velodyne.scans ∧
      n ≤ k.imu.elim k.leftImgs fun imu => imu.oxtsFiles.length := by
  rw [limit, le_min_iff, le_min_iff]

theorem le_frames_iff {k : KittiOdom} {n : ℕ} : n ≤ frames k ↔
    n ≤ limit k ∧ n ≤ k.rightImgs ∧ n ≤ k.timesFile.length ∧
      n ≤ k.groundTruth.elim k.leftImgs List.length := by
  rw [le_limit_iff, frames, le_min_iff, le_min_iff, le_min_iff, le_min_iff, le_min_iff]
  tauto

theorem frames_le_limit (k : KittiOdom) : frames k ≤ limit k := (le_frames_iff.mp le_rfl).1

/-- A frame is below all lengths. -/
theorem lt_frames {k : KittiOdom} {i : ℕ} : i < frames k ↔
    i < k.timesFile.length ∧ i < k.leftImgs ∧ i < k.rightImgs ∧
      i < k.velodyne.elim k.leftImgs Velodyne.scans ∧
      (i < k.imu.elim k.leftImgs fun imu => imu.oxtsFiles.length) ∧
      i < k.groundTruth.elim k.leftImgs List.length := by
  rw [← Nat.succ_le_iff, le_frames_iff, le_limit_iff]
  simp only [Nat.succ_le_iff]
  tauto

theorem counterLimit_eq (k : KittiOdom) : k.counterLimit = (limit k : ℤ) - 1 := by
  unfold KittiOdom.counterLimit limit
  cases k.velodyne with
  | none =>
    cases k.imu with
    | none => simp
    | some imu =>
      simp only [Option.elim]
      omega
  | some v =>
    cases k.imu with
    | none =>
      simp only [Option.elim]
      omega
    | some imu =>
      simp only [Option.elim]
      omega

/-- The callback of frame `i` is the last one. -/
theorem ge_counterLimit_iff (k : KittiOdom) (i : ℕ) :
    (i : ℤ) ≥ k.counterLimit ↔ limit k ≤ i + 1 := by
  rw [counterLimit_eq]
  omega

/-- What a stream asks of a frame, whether it is enabled or not. -/
theorem forall_lengths_iff {γ : Type*} {stream : Option γ} {as : γ → List Access} {f : γ → ℕ}
    (has : ∀ v, (as v).filterMap Access.length? = [f v]) {i d : ℕ} (hd : i < d) :
    (∀ n ∈ (stream.elim [] as).filterMap Access.length?, i < n) ↔ i < stream.elim d f := by
  cases stream with
  | none => simpa using hd
  | some v =>
    rw [Option.elim_some, has, List.forall_mem_singleton]
    rfl

/-- A frame is one of all lists if it is below their lengths. -/
theorem lt_frames_iff (k : KittiOdom) (i : ℕ) : i < frames k ↔ ∀ n ∈ lengths k, i < n := by
  have htf : (if k.velodyne.isSome ∨ k.groundTruth.isSome then [Access.write "/tf"]
      else []).filterMap Access.length? = [] := by
    split_ifs
    · rfl
    · rfl
  have hlists : ∀ rest : List ℕ, (∀ n ∈ [k.timesFile.length, k.leftImgs, k.rightImgs] ++ rest, i < n) ↔
      i < k.timesFile.length ∧ i < k.leftImgs ∧ i < k.rightImgs ∧ ∀ n ∈ rest, i < n := by simp
  unfold lengths accesses
  simp only [List.filterMap_append, htf, List.append_nil, List.append_assoc]
  refine Iff.trans ?_ (hlists _).symm
  rw [List.forall_mem_append, List.forall_mem_append]
  by_cases hleft : i < k.leftImgs
  · rw [forall_lengths_iff (f := Velodyne.scans) (fun _ => rfl) hleft,
      forall_lengths_iff (f := fun imu => imu.oxtsFiles.length) (fun _ => rfl) hleft,
      forall_lengths_iff (f := List.length) (fun _ => rfl) hleft]
    exact lt_frames
  · exact iff_of_false (fun h => hleft (lt_frames.mp h).2.1) fun h => hleft h.2.1

theorem perform_of_lt {i : ℕ} {l : List Access} (h : ∀ n ∈ l.filterMap Access.length?, i < n) :
    perform i l = (l.filterMap Access.topic?, true) := by
  induction l with
  | nil => rfl
  | cons a l ih =>
    cases a with
    | index n =>
      obtain ⟨hn, hl⟩ := List.forall_mem_cons.mp h
      rw [perform, if_pos hn, ih hl]
      rfl
    | write topic =>
      rw [perform, ih h]
      rfl

theorem perform_of_not_lt {i : ℕ} {l : List Access}
    (h : ¬ ∀ n ∈ l.filterMap Access.length?, i < n) : (perform i l).2 = false := by
  induction l with
  | nil => exact absurd (fun _ hn => absurd hn List.not_mem_nil) h
  | cons a l ih =>
    cases a with
    | index n =>
      rw [perform]
      split_ifs with hn
      · exact ih fun hl => h (List.forall_mem_cons.mpr ⟨hn, hl⟩)
      · rfl
    | write topic => exact ih h

/-- A callback that comes to its end writes one message to every enabled topic. -/
theorem topics_eq (k : KittiOdom) : (accesses k).filterMap Access.topic? = topics k := by
  unfold topics accesses
  cases k.velodyne <;> cases k.imu <;> cases k.groundTruth
  all_goals rfl

theorem topics_nodup (k : KittiOdom) : (topics k).Nodup := by
  unfold topics
  cases k.velodyne.isSome <;> cases k.imu.isSome <;> cases k.groundTruth.isSome
  all_goals decide

/-! ### Runs -/

variable {k : KittiOdom} {s : Recorder}

/-- What is known of the recorder after any number of callbacks. -/
structure Reached (k : KittiOdom) (s : Recorder) : Prop where
  counter_le : s.counter ≤ frames k
  count : s.raised = false → ∀ topic ∈ topics k, s.written.count topic = s.counter
  early : s.done = false → s.counter = 0 ∨ s.counter < limit k
  done : s.done = true → 0 < s.counter ∧ limit k ≤ s.counter
  raised : s.raised = true → s.done = false ∧ s.counter = frames k
  bagOpen : s.bagOpen = (!s.done && !s.raised)

theorem reached_start (k : KittiOdom) : Reached k {} where
  counter_le := Nat.zero_le _
  count _ _ _ := rfl
  early _ := Or.inl rfl
  done h := absurd h Bool.false_ne_true
  raised h := absurd h Bool.false_ne_true
  bagOpen := rfl

theorem callback_of_lt (h : s.counter < frames k) : s.callback k =
    if limit k ≤ s.counter + 1 then
      { s with
        counter := s.counter + 1, written := s.written ++ topics k, bagOpen := false, done := true }
    else { s with counter := s.counter + 1, written := s.written ++ topics k } := by
  unfold Recorder.callback
  rw [perform_of_lt ((lt_frames_iff k _).mp h), topics_eq]
  simp only [ge_counterLimit_iff]
  rfl

theorem callback_of_not_lt (h : ¬ s.counter < frames k) : ∃ written, s.callback k =
    { s with written := written, bagOpen := false, raised := true } := by
  have hfinished := perform_of_not_lt ((lt_frames_iff k _).not.mp h)
  refine ⟨s.written ++ (perform s.counter (accesses k)).1, ?_⟩
  unfold Recorder.callback
  rw [← Prod.mk.eta (p := perform s.counter (accesses k)), hfinished]
  rfl

/-- **Step lemma**. -/
theorem Reached.callback (h : Reached k s) (hdone : s.done = false) (hraised : s.raised = false) :
    Reached k (s.callback k) := by
  by_cases hlt : s.counter < frames k
  · have hcount : ∀ topic ∈ topics k, (s.written ++ topics k).count topic = s.counter + 1 := by
      intro topic htopic
      rw [List.count_append, h.count hraised topic htopic,
        List.count_eq_one_of_mem (topics_nodup k) htopic]
    rw [callback_of_lt hlt]
    split_ifs with hlimit
    · exact ⟨hlt, fun _ => hcount, fun h => absurd h (by simp), fun _ => ⟨Nat.succ_pos _, hlimit⟩,
        fun hr => absurd (hraised.symm.trans hr) (by simp), rfl⟩
    · refine ⟨hlt, fun _ => hcount, fun _ => Or.inr (by show s.counter + 1 < _; omega),
        fun hd => absurd (hdone.symm.trans hd) (by simp),
        fun hr => absurd (hraised.symm.trans hr) (by simp), h.bagOpen⟩
  · obtain ⟨written, heq⟩ := callback_of_not_lt hlt
    rw [heq]
    refine ⟨h.counter_le, fun h => absurd h (by simp), fun _ => h.early hdone,
      fun hd => absurd (hdone.symm.trans hd) (by simp), fun _ => ⟨hdone, ?_⟩, ?_⟩
    · exact le_antisymm h.counter_le (not_lt.mp hlt)
    · simp

/-- **Run lemma**. -/
theorem Reached.spin (h : Reached k s) (fuel : ℕ) : Reached k (spin k fuel s) := by
  induction fuel generalizing s with
  | zero => exact h
  | succ fuel ih =>
    rw [KittiRec.spin]
    split_ifs with hend
    · exact h
    · rw [Bool.or_eq_true, not_or, Bool.not_eq_true, Bool.not_eq_true] at hend
      exact ih (h.callback hend.1 hend.2)

/-- **The recording ends**, at the latest with a frame that some list does not have. -/
theorem spin_ends (h : Reached k s) {fuel : ℕ} (hfuel : frames k < s.counter + fuel) :
    (spin k fuel s).done = true ∨ (spin k fuel s).raised = true := by
  induction fuel generalizing s with
  | zero => exact absurd h.counter_le (by omega)
  | succ fuel ih =>
    rw [spin]
    split_ifs with hend
    · rwa [Bool.or_eq_true] at hend
    · rw [Bool.or_eq_true, not_or, Bool.not_eq_true, Bool.not_eq_true] at hend
      by_cases hlt : s.counter < frames k
      · refine ih (h.callback hend.1 hend.2) ?_
        have hcounter : (s.callback k).counter = s.counter + 1 := by
          rw [callback_of_lt hlt]
          split_ifs
          · rfl
          · rfl
        omega
      · obtain ⟨written, heq⟩ := callback_of_not_lt hlt
        rw [heq]
        cases fuel with
        | zero => exact Or.inr rfl
        | succ fuel =>
          rw [spin, if_pos (by simp)]
          exact Or.inr rfl

/-- Recording comes to its end without an index out of range, with all frames on every enabled topic
and the bag closed. -/
def RecordsAll (k : KittiOdom) : Prop :=
  ∃ fuel, (spin k fuel {}).done = true ∧ (spin k fuel {}).raised = false ∧
    (spin k fuel {}).bagOpen = false ∧
    ∀ topic ∈ topics k, (spin k fuel {}).written.count topic = frames k

/-- No list is empty, and those that `counter_limit` does not know are as long as the shortest of
the others. -/
def LimitFits (k : KittiOdom) : Prop :=
  0 < limit k ∧ limit k ≤ k.rightImgs ∧ limit k ≤ k.timesFile.length ∧
    ∀ poses ∈ k.groundTruth, limit k ≤ poses.length

theorem limitFits_iff (k : KittiOdom) : LimitFits k ↔ 0 < limit k ∧ frames k = limit k := by
  have hleft : limit k ≤ k.leftImgs := (le_limit_iff.mp le_rfl).1
  have hgt : (∀ poses ∈ k.groundTruth, limit k ≤ poses.length) ↔
      limit k ≤ k.groundTruth.elim k.leftImgs List.length := by
    cases k.groundTruth with
    | none => simpa using hleft
    | some poses => simp
  have hframes : frames k = limit k ↔ limit k ≤ frames k :=
    ⟨fun h => h.ge, fun h => le_antisymm (frames_le_limit k) h⟩
  unfold LimitFits
  rw [hgt, hframes, le_frames_iff, and_iff_right le_rfl]

/-- **The recorder stays within its data** and records all of it if and only if `counter_limit` fits
all lists. -/
theorem recordsAll_iff (k : KittiOdom) : RecordsAll k ↔ LimitFits k := by
  rw [limitFits_iff]
  constructor
  · rintro ⟨fuel, hdone, hraised, -, hcount⟩
    have hreached := (reached_start k).spin fuel
    have hcounter : (spin k fuel {}).counter = frames k := by
      rw [← hreached.count hraised "/camera2/left/image_raw" (by simp [topics])]
      exact hcount _ (by simp [topics])
    have hle := frames_le_limit k
    obtain ⟨hpos, hlimit⟩ := hreached.done hdone
    omega
  · rintro ⟨hpos, hframes⟩
    have hreached := (reached_start k).spin (frames k + 1)
    have hraised : (spin k (frames k + 1) {}).raised = false := by
      by_contra hr
      obtain ⟨hdone, hcounter⟩ := hreached.raised (Bool.not_eq_false _ ▸ hr)
      have hearly := hreached.early hdone
      omega
    have hdone : (spin k (frames k + 1) {}).done = true := by
      have hends := spin_ends (reached_start k) (show frames k < 0 + (frames k + 1) by omega)
      rwa [hraised, or_iff_left Bool.false_ne_true] at hends
    obtain ⟨-, hlimit⟩ := hreached.done hdone
    refine ⟨frames k + 1, hdone, hraised, ?_, fun topic htopic => ?_⟩
    · rw [hreached.bagOpen, hdone]
      rfl
    · rw [hreached.count hraised topic htopic]
      exact le_antisymm hreached.counter_le (hframes ▸ hlimit)

/-- Two left images and one right image. -/
def oneRight : KittiOdom where
  leftImgs := 2
  rightImgs := 1
  timesFile := [0, 0]
  groundTruth := none
  velodyne := none
  imu := none

/-- With a right image too few the recorder takes one that is not there. -/
theorem not_recordsAll : ¬ ∀ k, RecordsAll k := by
  intro h
  obtain ⟨fuel, hdone, -⟩ := h oneRight
  have hreached := (reached_start oneRight).spin fuel
  have hle : (spin oneRight fuel {}).counter ≤ 1 := hreached.counter_le
  have hge : 2 ≤ (spin oneRight fuel {}).counter := (hreached.done hdone).2
  omega

/-! ### The recorder and its messages -/

theorem guard_eq_some_iff {p : Prop} [Decidable p] {u : Unit} : guard p = some u ↔ p := by
  unfold guard
  split_ifs with h
  · simp [h]
  · simp [h]

/-- The callback that writes the messages comes to its end with a frame of all lists. -/
theorem lt_frames_of_recCallback {s s' : State} {r : Recorded} (h : recCallback k s = some (s', r)) :
    s.counter < frames k ∧ s'.counter = s.counter + 1 ∧
      s'.done = decide ((s.counter : ℤ) ≥ k.counterLimit) := by
  unfold recCallback at h
  simp only [Option.bind_eq_bind, Option.bind_eq_some_iff] at h
  obtain ⟨time, htime, _, hguard, velodyneTfs, hvelodyne, oxts, hoxts, pose, hpose, h⟩ := h
  obtain ⟨rfl, -⟩ := Prod.mk.inj (Option.some.inj h)
  refine ⟨?_, rfl, rfl⟩
  obtain ⟨hleft, hright⟩ := guard_eq_some_iff.mp hguard
  have htimes : s.counter < k.timesFile.length := (List.getElem?_eq_some_iff.mp htime).1
  have hscans : s.counter < k.velodyne.elim k.leftImgs Velodyne.scans := by
    cases hk : k.velodyne with
    | none => exact hleft
    | some v =>
      rw [hk] at hvelodyne
      exact (Option.ite_none_right_eq_some.mp hvelodyne).1
  have hentries : s.counter < k.imu.elim k.leftImgs fun imu => imu.oxtsFiles.length := by
    cases hk : k.imu with
    | none => exact hleft
    | some imu =>
      rw [hk] at hoxts
      obtain ⟨entry, hentry, -⟩ := Option.map_eq_some_iff.mp hoxts
      exact (List.getElem?_eq_some_iff.mp hentry).1
  have hposes : s.counter < k.groundTruth.elim k.leftImgs List.length := by
    cases hk : k.groundTruth with
    | none => exact hleft
    | some poses =>
      rw [hk] at hpose
      obtain ⟨entry, hentry, -⟩ := Option.map_eq_some_iff.mp hpose
      exact (List.getElem?_eq_some_iff.mp hentry).1
  exact lt_frames.mpr ⟨htimes, hleft, hright, hscans, hentries, hposes⟩

theorem spin_succ (fuel : ℕ) : spin k (fuel + 1) s =
    if (spin k fuel s).done || (spin k fuel s).raised then spin k fuel s
    else (spin k fuel s).callback k := by
  induction fuel generalizing s with
  | zero => rfl
  | succ fuel ih =>
    rw [spin]
    by_cases hend : (s.done || s.raised) = true
    · have hstay : spin k (fuel + 1) s = s := by rw [spin, if_pos hend]
      rw [if_pos hend, hstay, if_pos hend]
    · have hgo : spin k (fuel + 1) s = spin k fuel (s.callback k) := by rw [spin, if_neg hend]
      rw [if_neg hend, ih, hgo]

/-- **Refinement**: a run of the node that writes the messages is a recording without an exception,
frame by frame. -/
theorem spin_of_reaches {s : State} {tr : List (Unit × Recorded)} (h : (kittiRec k).Reaches tr s) :
    (spin k tr.length {}).counter = s.counter ∧ (spin k tr.length {}).done = s.done ∧
      (spin k tr.length {}).raised = false := by
  refine h.invariant (I := fun tr s => (spin k tr.length {}).counter = s.counter ∧
    (spin k tr.length {}).done = s.done ∧ (spin k tr.length {}).raised = false) ⟨rfl, rfl, rfl⟩ ?_
  rintro tr s ⟨⟩ s' r - ⟨hcounter, hdone, hraised⟩ - hstep
  obtain ⟨hrunning, hstep⟩ := Option.ite_none_left_eq_some.mp hstep
  obtain ⟨hlt, hcounter', hdone'⟩ := lt_frames_of_recCallback hstep
  rw [Bool.not_eq_true] at hrunning
  rw [List.length_append, List.length_singleton, spin_succ, hdone, hrunning, hraised, hcounter',
    hdone']
  rw [← hcounter] at hlt ⊢
  simp only [Bool.or_false, Bool.false_eq_true, if_false, callback_of_lt hlt, ge_counterLimit_iff]
  split_ifs with hlast
  · exact ⟨rfl, (decide_eq_true hlast).symm, hraised⟩
  · exact ⟨rfl, (hdone.trans hrunning).trans (decide_eq_false hlast).symm, hraised⟩

end RoverSwarm.Kitti.KittiRec
