import RoverSwarm.Kitti

/-!
# Kitti.Patch — what patching does to a bag

`patch_tf` reads a bag message by message and writes another.  It turns every odometry message into
three messages, drops the old path and copies everything else.  A second pass therefore copies what
the first has written on `/tf`, and writes it again.
-/

namespace RoverSwarm.Kitti.PatchTf

open Matrix Quaternion RigidMotion Transition

noncomputable section

variable {β : Type*}

/-- `serialize_message` on the messages that are written anew. -/
structure Serializer (β : Type*) where
  odometry : Odometry → β
  path : Path → β
  tfMessage : List TransformStamped → β

/-- The calls of `writer.write`. -/
def Written.messages (S : Serializer β) : Written β → List (BagMessage β)
  | .copied msg => [msg]
  | .regenerated timestampNs odom path tf =>
    [⟨"/car/base/odom", S.odometry odom, timestampNs⟩,
      ⟨"/car/base/odom_path", S.path path, timestampNs⟩, ⟨"/tf", S.tfMessage tf, timestampNs⟩]

/-- The message on `/tf` among those written anew. -/
def Written.tfMessages (S : Serializer β) : Written β → List (BagMessage β)
  | .copied _ => []
  | .regenerated timestampNs _ _ tf => [⟨"/tf", S.tfMessage tf, timestampNs⟩]

/-- What the loop writes for the messages of `bag` from `s`; `none` if it raises. -/
def writes (groundTruth : List Homogeneous) (tr : Homogeneous) (s : State)
    (bag : List (BagMessage β)) : Option (List (Written β)) :=
  ((patchTf β groundTruth tr).execFrom s bag).map fun r => r.1.flatMap Prod.snd

/-- The bag `main` writes for the bag it reads. -/
def patch (S : Serializer β) (groundTruth : List Homogeneous) (tr : Homogeneous)
    (bag : List (BagMessage β)) : Option (List (BagMessage β)) :=
  (writes groundTruth tr {} bag).map fun ws => ws.flatMap (Written.messages S)

variable {S : Serializer β} {gt : List Homogeneous} {tr : Homogeneous} {s : State}
  {msg : BagMessage β} {bag : List (BagMessage β)} {ws : List (Written β)}

/-! ### One message after the other -/

theorem writes_cons (gt : List Homogeneous) (tr : Homogeneous) (s : State) (msg : BagMessage β)
    (bag : List (BagMessage β)) : writes gt tr s (msg :: bag) =
      ((patchTf β gt tr).step s msg).bind fun r => (writes gt tr r.1 bag).map (r.2 ++ ·) := by
  unfold writes
  rw [Machine.execFrom]
  cases (patchTf β gt tr).step s msg with
  | none => rfl
  | some r =>
    show Option.map _ (Option.map _ ((patchTf β gt tr).execFrom r.1 bag)) =
      Option.map _ (Option.map _ ((patchTf β gt tr).execFrom r.1 bag))
    rw [Option.map_map, Option.map_map]
    rfl

/-- The poses of the path after another pose. -/
def posesAfter (s : State) (pose : Homogeneous) (timestampNs : ℤ) : List PoseStamped :=
  s.poses ++ [⟨stamp timestampNs, "odom", KittiRec.vehiclePose pose⟩]

/-- What is written for a pose of the ground truth. -/
def anew (tr pose : Homogeneous) (s : State) (timestampNs : ℤ) : Written β :=
  .regenerated timestampNs ⟨stamp timestampNs, "map", "odom", KittiRec.vehiclePose pose⟩
    ⟨stamp timestampNs, "map", posesAfter s pose timestampNs⟩
    [KittiRec.mapToOdom pose timestampNs, KittiRec.odomToVelodyne tr timestampNs]

theorem writes_odom (hmsg : msg.topic = "/car/base/odom") {pose : Homogeneous}
    (hpose : gt[s.counter]? = some pose) : writes gt tr s (msg :: bag) =
      (writes gt tr ⟨s.counter + 1, posesAfter s pose msg.timestampNs⟩ bag).map
        (anew tr pose s msg.timestampNs :: ·) := by
  have hstep : (patchTf β gt tr).step s msg = some (⟨s.counter + 1,
      posesAfter s pose msg.timestampNs⟩, [anew tr pose s msg.timestampNs]) := by
    show (if msg.topic = "/car/base/odom" then _ else _) = _
    rw [if_pos hmsg, hpose]
    rfl
  rw [writes_cons, hstep]
  rfl

theorem writes_odom_none (hmsg : msg.topic = "/car/base/odom") (hpose : gt[s.counter]? = none) :
    writes gt tr s (msg :: bag) = none := by
  have hstep : (patchTf β gt tr).step s msg = none := by
    show (if msg.topic = "/car/base/odom" then _ else _) = _
    rw [if_pos hmsg, hpose]
    rfl
  rw [writes_cons, hstep]
  rfl

theorem writes_path (hmsg : msg.topic = "/car/base/odom_path") :
    writes gt tr s (msg :: bag) = writes gt tr s bag := by
  have hstep : (patchTf β gt tr).step s msg = some (s, []) := by
    show (if msg.topic = "/car/base/odom" then _ else
      if msg.topic = "/car/base/odom_path" then _ else _) = _
    rw [if_neg (by rw [hmsg]; decide), if_pos hmsg]
  rw [writes_cons, hstep]
  show (writes gt tr s bag).map ([] ++ ·) = _
  simp

theorem writes_other (hodom : msg.topic ≠ "/car/base/odom")
    (hpath : msg.topic ≠ "/car/base/odom_path") :
    writes gt tr s (msg :: bag) = (writes gt tr s bag).map (.copied msg :: ·) := by
  have hstep : (patchTf β gt tr).step s msg = some (s, [.copied msg]) := by
    show (if msg.topic = "/car/base/odom" then _ else
      if msg.topic = "/car/base/odom_path" then _ else _) = _
    rw [if_neg hodom, if_neg hpath]
  rw [writes_cons, hstep]
  rfl

/-- The first write and the others, topic by topic. -/
theorem writes_cons_cases (h : writes gt tr s (msg :: bag) = some ws) :
    (msg.topic = "/car/base/odom" ∧ ∃ pose ws', gt[s.counter]? = some pose ∧
      writes gt tr ⟨s.counter + 1, posesAfter s pose msg.timestampNs⟩ bag = some ws' ∧
      ws = anew tr pose s msg.timestampNs :: ws') ∨
    (msg.topic = "/car/base/odom_path" ∧ writes gt tr s bag = some ws) ∨
    (msg.topic ≠ "/car/base/odom" ∧ msg.topic ≠ "/car/base/odom_path" ∧
      ∃ ws', writes gt tr s bag = some ws' ∧ ws = .copied msg :: ws') := by
  by_cases hodom : msg.topic = "/car/base/odom"
  · refine Or.inl ⟨hodom, ?_⟩
    cases hpose : gt[s.counter]? with
    | none =>
      rw [writes_odom_none hodom hpose] at h
      exact absurd h (by simp)
    | some pose =>
      rw [writes_odom hodom hpose] at h
      obtain ⟨ws', hws', rfl⟩ := Option.map_eq_some_iff.mp h
      exact ⟨pose, ws', rfl, hws', rfl⟩
  · by_cases hpath : msg.topic = "/car/base/odom_path"
    · rw [writes_path hpath] at h
      exact Or.inr (Or.inl ⟨hpath, h⟩)
    · rw [writes_other hodom hpath] at h
      obtain ⟨ws', hws', rfl⟩ := Option.map_eq_some_iff.mp h
      exact Or.inr (Or.inr ⟨hodom, hpath, ws', hws', rfl⟩)

/-! ### The place of every message -/

def onTopic (topic : String) (bag : List (BagMessage β)) : List (BagMessage β) :=
  bag.filter fun msg => msg.topic = topic

theorem onTopic_concat (topic : String) (msgs : List (BagMessage β)) (msg : BagMessage β) :
    onTopic topic (msgs ++ [msg]) =
      if msg.topic = topic then onTopic topic msgs ++ [msg] else onTopic topic msgs := by
  unfold onTopic
  rw [List.filter_append]
  split_ifs with h
  · simp [h]
  · simp [h]

/-- The odometry messages. -/
def odoms (bag : List (BagMessage β)) : List (BagMessage β) :=
  bag.filter fun msg => msg.topic = "/car/base/odom"

/-- The `i`-th pose of the ground truth at the time of the `i`-th odometry message. -/
def stampedPoses (groundTruth : List Homogeneous) (msgs : List (BagMessage β)) :
    List PoseStamped :=
  List.zipWith (fun pose msg => ⟨stamp msg.timestampNs, "odom", KittiRec.vehiclePose pose⟩)
    groundTruth msgs

/-- What stands in the place of `msg`, with the messages `before` it: for an odometry message the
pose of its number, the path up to it and the transforms, all at its time. -/
def inPlace (S : Serializer β) (groundTruth : List Homogeneous) (tr : Homogeneous)
    (before : List (BagMessage β)) (msg : BagMessage β) : List (BagMessage β) :=
  if msg.topic = "/car/base/odom" then
    (groundTruth[(odoms before).length]?).toList.flatMap fun pose =>
      [⟨"/car/base/odom", S.odometry ⟨stamp msg.timestampNs, "map", "odom",
          KittiRec.vehiclePose pose⟩, msg.timestampNs⟩,
        ⟨"/car/base/odom_path", S.path ⟨stamp msg.timestampNs, "map",
          stampedPoses groundTruth (odoms (before ++ [msg]))⟩, msg.timestampNs⟩,
        ⟨"/tf", S.tfMessage [KittiRec.mapToOdom pose msg.timestampNs,
          KittiRec.odomToVelodyne tr msg.timestampNs], msg.timestampNs⟩]
  else if msg.topic = "/car/base/odom_path" then []
  else [msg]

/-- Every message in its place, after the messages `before`. -/
def allInPlace (S : Serializer β) (groundTruth : List Homogeneous) (tr : Homogeneous)
    (before : List (BagMessage β)) : List (BagMessage β) → List (BagMessage β)
  | [] => []
  | msg :: bag => inPlace S groundTruth tr before msg ++
    allInPlace S groundTruth tr (before ++ [msg]) bag

theorem odoms_cons (msg : BagMessage β) (bag : List (BagMessage β)) :
    odoms (msg :: bag) =
      if msg.topic = "/car/base/odom" then msg :: odoms bag else odoms bag := by
  unfold odoms
  rw [List.filter_cons]
  simp only [decide_eq_true_eq]

theorem odoms_concat (before : List (BagMessage β)) (msg : BagMessage β) :
    odoms (before ++ [msg]) =
      if msg.topic = "/car/base/odom" then odoms before ++ [msg] else odoms before :=
  onTopic_concat "/car/base/odom" before msg

theorem length_odoms_lt {before : List (BagMessage β)} (hmsg : msg.topic = "/car/base/odom") {n : ℕ}
    (h : (odoms (before ++ [msg] ++ bag)).length ≤ n) : (odoms before).length < n := by
  have hsplit : odoms (before ++ [msg] ++ bag) = odoms before ++ [msg] ++ odoms bag := by
    rw [odoms, List.filter_append, ← odoms, ← odoms, odoms_concat, if_pos hmsg]
  rw [hsplit, List.length_append, List.length_append, List.length_singleton] at h
  omega

/-- The state of the loop after the messages `before`. -/
structure After (gt : List Homogeneous) (before : List (BagMessage β)) (s : State) : Prop where
  counter : s.counter = (odoms before).length
  poses : s.poses = stampedPoses gt (odoms before)

theorem After.concat_odom {before : List (BagMessage β)} (h : After gt before s)
    (hmsg : msg.topic = "/car/base/odom") {pose : Homogeneous}
    (hpose : gt[s.counter]? = some pose) :
    After gt (before ++ [msg]) ⟨s.counter + 1, posesAfter s pose msg.timestampNs⟩ := by
  have hodoms := (odoms_concat before msg).trans (if_pos hmsg)
  refine ⟨?_, ?_⟩
  · rw [hodoms, List.length_append, List.length_singleton, ← h.counter]
  · have hlast : gt[(odoms before).length]? = some pose := h.counter ▸ hpose
    rw [hodoms, stampedPoses, zipWith_concat hlast, ← stampedPoses, ← h.poses]
    rfl

theorem After.concat {before : List (BagMessage β)} (h : After gt before s)
    (hmsg : msg.topic ≠ "/car/base/odom") : After gt (before ++ [msg]) s := by
  have hodoms := (odoms_concat before msg).trans (if_neg hmsg)
  exact ⟨hodoms ▸ h.counter, hodoms ▸ h.poses⟩

theorem messages_anew (S : Serializer β) {before : List (BagMessage β)} (h : After gt before s)
    (hmsg : msg.topic = "/car/base/odom") {pose : Homogeneous}
    (hpose : gt[s.counter]? = some pose) :
    (anew tr pose s msg.timestampNs).messages S = inPlace S gt tr before msg := by
  have hlast : gt[(odoms before).length]? = some pose := h.counter ▸ hpose
  have hpath := (h.concat_odom hmsg hpose).poses
  rw [inPlace, if_pos hmsg, hlast, ← hpath]
  rfl

/-- **Loop lemma**: with a pose for every odometry message nothing raises, and every message is
replaced in its place. -/
theorem writes_eq_allInPlace (S : Serializer β) {before : List (BagMessage β)}
    (h : After gt before s) (hodom : (odoms (before ++ bag)).length ≤ gt.length) :
    (writes gt tr s bag).map (fun ws => ws.flatMap (Written.messages S)) =
      some (allInPlace S gt tr before bag) := by
  induction bag generalizing before s with
  | nil => rfl
  | cons msg bag ih =>
    rw [List.append_cons] at hodom
    rw [allInPlace]
    by_cases hmsg : msg.topic = "/car/base/odom"
    · have hlt : s.counter < gt.length := h.counter ▸ length_odoms_lt hmsg hodom
      have hpose : gt[s.counter]? = some gt[s.counter] := List.getElem?_eq_getElem hlt
      obtain ⟨ws, hws, hflat⟩ := Option.map_eq_some_iff.mp (ih (h.concat_odom hmsg hpose) hodom)
      rw [writes_odom hmsg hpose, hws, ← hflat, ← messages_anew S h hmsg hpose]
      rfl
    · obtain ⟨ws, hws, hflat⟩ := Option.map_eq_some_iff.mp (ih (h.concat hmsg) hodom)
      rw [inPlace, if_neg hmsg, ← hflat]
      by_cases hpath : msg.topic = "/car/base/odom_path"
      · rw [writes_path hpath, hws, if_pos hpath]
        rfl
      · rw [writes_other hmsg hpath, hws, if_neg hpath]
        rfl

/-! ### What stays and what is new -/

/-- The messages whose topic is neither of the odometry nor `/tf`. -/
def others (bag : List (BagMessage β)) : List (BagMessage β) :=
  bag.filter fun msg => msg.topic ∉ ["/car/base/odom", "/car/base/odom_path", "/tf"]

theorem others_allInPlace (before bag : List (BagMessage β)) :
    others (allInPlace S gt tr before bag) = others bag := by
  induction bag generalizing before with
  | nil => rfl
  | cons msg bag ih =>
    have hhead : others (inPlace S gt tr before msg) = others [msg] := by
      unfold inPlace
      by_cases hodom : msg.topic = "/car/base/odom"
      · rw [if_pos hodom]
        cases gt[(odoms before).length]? with
        | none => simp [others, hodom]
        | some pose => simp [others, hodom]
      · rw [if_neg hodom]
        by_cases hpath : msg.topic = "/car/base/odom_path"
        · rw [if_pos hpath]
          simp [others, hpath]
        · rw [if_neg hpath]
    show others (inPlace S gt tr before msg ++ _) = others ([msg] ++ bag)
    unfold others at ih hhead ⊢
    rw [List.filter_append, List.filter_append, ih, hhead]

/-- A topic that is written anew has a message for every odometry message. -/
theorem length_onTopic_allInPlace {topic : String}
    (htopic : topic ∈ ["/car/base/odom", "/car/base/odom_path", "/tf"])
    {before bag : List (BagMessage β)} (htf : ∀ msg ∈ bag, msg.topic ≠ "/tf")
    (hodom : (odoms (before ++ bag)).length ≤ gt.length) :
    (onTopic topic (allInPlace S gt tr before bag)).length = (odoms bag).length := by
  induction bag generalizing before with
  | nil => rfl
  | cons msg bag ih =>
    rw [List.append_cons] at hodom
    rw [List.forall_mem_cons] at htf
    have hhead : (onTopic topic (inPlace S gt tr before msg)).length = (odoms [msg]).length := by
      rw [List.mem_cons, List.mem_cons, List.mem_singleton] at htopic
      unfold inPlace
      by_cases hmsg : msg.topic = "/car/base/odom"
      · rw [if_pos hmsg, List.getElem?_eq_getElem (length_odoms_lt hmsg hodom)]
        rcases htopic with rfl | rfl | rfl
        all_goals simp [onTopic, odoms, hmsg]
      · rw [if_neg hmsg]
        by_cases hpath : msg.topic = "/car/base/odom_path"
        · rw [if_pos hpath]
          simp [onTopic, odoms, hpath]
        · rw [if_neg hpath]
          have hne : msg.topic ≠ topic := by
            rcases htopic with rfl | rfl | rfl
            · exact hmsg
            · exact hpath
            · exact htf.1
          simp [onTopic, odoms, hmsg, hne]
    have htail := ih htf.2 hodom
    show (onTopic topic (inPlace S gt tr before msg ++ _)).length = (odoms ([msg] ++ bag)).length
    unfold onTopic odoms at hhead htail ⊢
    rw [List.filter_append, List.filter_append, List.length_append, List.length_append, hhead,
      htail]

/-- With a pose for every odometry message the loop replaces every message in its place. -/
theorem patch_eq_allInPlace (S : Serializer β) (gt : List Homogeneous) (tr : Homogeneous)
    {bag : List (BagMessage β)} (hodom : (odoms bag).length ≤ gt.length) :
    patch S gt tr bag = some (allInPlace S gt tr [] bag) := by
  have hstart : After gt ([] : List (BagMessage β)) {} :=
    ⟨rfl, (List.zipWith_nil_right (f := _) (l := gt)).symm⟩
  exact writes_eq_allInPlace S hstart hodom

/-! ### Topics and times -/

/-- A bag: the topics that were created in it, and its messages, which are on such topics. -/
structure Bag (β : Type*) where
  topics : List String
  messages : List (BagMessage β)
  created : ∀ msg ∈ messages, msg.topic ∈ topics

/-- The seconds of a time are an `int32`; `Time` raises for others. -/
def StampFits (timestampNs : ℤ) : Prop :=
  -2 ^ 31 ≤ timestampNs / 10 ^ 9 ∧ timestampNs / 10 ^ 9 < 2 ^ 31

instance (timestampNs : ℤ) : Decidable (StampFits timestampNs) :=
  inferInstanceAs (Decidable (_ ∧ _))

/-- `main`: the topics of the source bag and `/tf` are created, and then the loop writes.  `none` if
it raises: for a pose that is missing, for the time of an odometry message, or for a write on a
topic that was not created. -/
def main (S : Serializer β) (groundTruth : List Homogeneous) (tr : Homogeneous) (bag : Bag β) :
    Option (Bag β) :=
  if ∀ msg ∈ odoms bag.messages, StampFits msg.timestampNs then
    (patch S groundTruth tr bag.messages).bind fun messages =>
      if h : ∀ msg ∈ messages, msg.topic ∈ bag.topics ++ ["/tf"] then
        some ⟨bag.topics ++ ["/tf"], messages, h⟩
      else none
  else none

/-- What the odometry of a bag asks of it: a path topic, and times that fit. -/
def Patchable (bag : Bag β) : Prop :=
  ∀ msg ∈ odoms bag.messages, "/car/base/odom_path" ∈ bag.topics ∧ StampFits msg.timestampNs

variable (S tr) in
/-- What is written is on the topics of the bag, on the path topic for an odometry message, and on
`/tf`. -/
theorem mem_allInPlace {bag : List (BagMessage β)} (before : List (BagMessage β))
    (hodom : (odoms (before ++ bag)).length ≤ gt.length) :
    (∀ msg ∈ odoms bag, ∃ out ∈ allInPlace S gt tr before bag,
      out.topic = "/car/base/odom_path") ∧
    ∀ out ∈ allInPlace S gt tr before bag, out ∈ bag ∨ out.topic = "/tf" ∨
      (∃ msg ∈ odoms bag, out.topic = msg.topic) ∨
      (odoms bag ≠ [] ∧ out.topic = "/car/base/odom_path") := by
  induction bag generalizing before with
  | nil => exact ⟨fun msg hmsg => absurd hmsg List.not_mem_nil,
      fun out hout => absurd hout List.not_mem_nil⟩
  | cons msg bag ih =>
    rw [List.append_cons] at hodom
    obtain ⟨hpaths, hall⟩ := ih (before ++ [msg]) hodom
    rw [allInPlace, inPlace, odoms_cons]
    by_cases hmsg : msg.topic = "/car/base/odom"
    · rw [if_pos hmsg, if_pos hmsg, List.getElem?_eq_getElem (length_odoms_lt hmsg hodom)]
      refine ⟨fun _ _ => ⟨_, List.mem_append_left _ (List.mem_cons_of_mem _ List.mem_cons_self),
        rfl⟩, fun out hout => ?_⟩
      rcases List.mem_append.mp hout with hout | hout
      · simp only [Option.toList_some, List.flatMap_cons, List.flatMap_nil, List.append_nil,
          List.mem_cons, List.not_mem_nil, or_false] at hout
        rcases hout with rfl | rfl | rfl
        · exact Or.inr (Or.inr (Or.inl ⟨msg, List.mem_cons_self, hmsg.symm⟩))
        · exact Or.inr (Or.inr (Or.inr ⟨List.cons_ne_nil _ _, rfl⟩))
        · exact Or.inr (Or.inl rfl)
      · rcases hall out hout with hout | hout | ⟨m, hm, hout⟩ | ⟨-, hout⟩
        · exact Or.inl (List.mem_cons_of_mem _ hout)
        · exact Or.inr (Or.inl hout)
        · exact Or.inr (Or.inr (Or.inl ⟨m, List.mem_cons_of_mem _ hm, hout⟩))
        · exact Or.inr (Or.inr (Or.inr ⟨List.cons_ne_nil _ _, hout⟩))
    · rw [if_neg hmsg, if_neg hmsg]
      refine ⟨fun m hm => ?_, fun out hout => ?_⟩
      · obtain ⟨out, hout, htopic⟩ := hpaths m hm
        exact ⟨out, List.mem_append_right _ hout, htopic⟩
      · rcases List.mem_append.mp hout with hout | hout
        · split_ifs at hout
          · exact absurd hout List.not_mem_nil
          · obtain rfl := List.mem_singleton.mp hout
            exact Or.inl List.mem_cons_self
        · exact (hall out hout).imp_left (List.mem_cons_of_mem _)

variable (S tr) in
/-- The loop writes on topics that were created exactly if the odometry has its path topic. -/
theorem topics_allInPlace {bag : Bag β} (hodom : (odoms bag.messages).length ≤ gt.length) :
    (∀ out ∈ allInPlace S gt tr [] bag.messages, out.topic ∈ bag.topics ++ ["/tf"]) ↔
      ∀ msg ∈ odoms bag.messages, "/car/base/odom_path" ∈ bag.topics := by
  obtain ⟨hpaths, hall⟩ := mem_allInPlace S tr [] hodom
  constructor
  · intro h msg hmsg
    obtain ⟨out, hout, htopic⟩ := hpaths msg hmsg
    have hmem := h out hout
    rw [htopic] at hmem
    simpa using hmem
  · intro h out hout
    refine List.mem_append.mpr ?_
    rcases hall out hout with hout | htopic | ⟨msg, hmsg, htopic⟩ | ⟨hne, htopic⟩
    · exact Or.inl (bag.created out hout)
    · exact Or.inr (List.mem_singleton.mpr htopic)
    · exact Or.inl (htopic ▸ bag.created msg (List.mem_of_mem_filter hmsg))
    · obtain ⟨msg, hmsg⟩ := List.exists_mem_of_ne_nil _ hne
      exact Or.inl (htopic ▸ h msg hmsg)

/-- **Patching goes through** exactly if the odometry has a path topic and times that fit. -/
theorem main_isSome_iff {bag : Bag β} (hodom : (odoms bag.messages).length ≤ gt.length) :
    (main S gt tr bag).isSome ↔ Patchable bag := by
  unfold main Patchable
  rw [patch_eq_allInPlace S gt tr hodom, Option.bind_some, forall₂_and,
    ← topics_allInPlace S tr hodom]
  split_ifs with hstamps hall
  · exact iff_of_true rfl ⟨hall, hstamps⟩
  · exact iff_of_false (by simp) fun h => hall h.1
  · exact iff_of_false (by simp) fun h => hstamps h.2

/-- The bag that is written has the topic `/tf` and the messages of the loop. -/
theorem main_eq_some {bag out : Bag β} (h : main S gt tr bag = some out) :
    patch S gt tr bag.messages = some out.messages ∧ out.topics = bag.topics ++ ["/tf"] := by
  obtain ⟨-, hbind⟩ := Option.ite_none_right_eq_some.mp h
  obtain ⟨messages, hpatch, hout⟩ := Option.bind_eq_some_iff.mp hbind
  split_ifs at hout
  obtain rfl := Option.some.inj hout
  exact ⟨hpatch, rfl⟩

/-- **Patching changes only odometry**: with a pose for every odometry message, patching goes
through exactly if the odometry has a path topic and times that fit.  Then every message is replaced
in its place, those of other topics by themselves, and the odometry, path and `/tf` are as many as
the odometry was. -/
theorem main_eq_allInPlace (S : Serializer β) (gt : List Homogeneous) (tr : Homogeneous)
    (bag : Bag β) (htf : "/tf" ∉ bag.topics) (hodom : (odoms bag.messages).length ≤ gt.length) :
    ((main S gt tr bag).isSome ↔ Patchable bag) ∧
    ∀ out, main S gt tr bag = some out → out.topics = bag.topics ++ ["/tf"] ∧
      out.messages = allInPlace S gt tr [] bag.messages ∧
      others out.messages = bag.messages.filter (fun msg =>
        msg.topic ≠ "/car/base/odom" ∧ msg.topic ≠ "/car/base/odom_path") ∧
      ∀ topic ∈ ["/car/base/odom", "/car/base/odom_path", "/tf"],
        (onTopic topic out.messages).length = (odoms bag.messages).length := by
  refine ⟨main_isSome_iff hodom, fun out hout => ?_⟩
  obtain ⟨hpatch, htopics⟩ := main_eq_some hout
  have hmessages : out.messages = allInPlace S gt tr [] bag.messages :=
    Option.some.inj (hpatch.symm.trans (patch_eq_allInPlace S gt tr hodom))
  have hnoTf : ∀ msg ∈ bag.messages, msg.topic ≠ "/tf" :=
    fun msg hmsg heq => htf (heq ▸ bag.created msg hmsg)
  rw [hmessages, others_allInPlace]
  refine ⟨htopics, rfl, ?_, fun topic htopic => length_onTopic_allInPlace htopic hnoTf hodom⟩
  refine List.filter_congr fun msg hmsg => ?_
  simp [hnoTf msg hmsg]

/-! ### A second pass -/

/-- What a second pass writes for a write of the first. -/
def Written.again (S : Serializer β) (w : Written β) : List (Written β) :=
  w :: (w.tfMessages S).map .copied

theorem messages_again (S : Serializer β) (w : Written β) :
    (w.again S).flatMap (Written.messages S) = w.messages S ++ w.tfMessages S := by
  cases w with
  | copied msg => rfl
  | regenerated timestampNs odom path tf => rfl

/-- **Loop lemma**: the second pass is in the state of the first when it reads what the first has
written, so it writes the same again, and copies the message on `/tf` as well. -/
theorem writes_messages (S : Serializer β) (h : writes gt tr s bag = some ws) :
    writes gt tr s (ws.flatMap (Written.messages S)) = some (ws.flatMap (Written.again S)) := by
  induction bag generalizing s ws with
  | nil =>
    obtain rfl := Option.some.inj h
    rfl
  | cons msg bag ih =>
    rcases writes_cons_cases h with ⟨-, pose, ws', hpose, hws', rfl⟩ | ⟨-, hws⟩ |
      ⟨hodom, hpath, ws', hws', rfl⟩
    · have hodom : "/tf" ≠ "/car/base/odom" := by decide
      have hpath : "/tf" ≠ "/car/base/odom_path" := by decide
      rw [List.flatMap_cons, anew, Written.messages, List.cons_append, List.cons_append,
        List.cons_append, List.nil_append, writes_odom rfl hpose, writes_path rfl,
        writes_other hodom hpath, ih hws']
      rfl
    · exact ih hws
    · rw [List.flatMap_cons, Written.messages, List.cons_append, List.nil_append,
        writes_other hodom hpath, ih hws']
      rfl

theorem patch_twice (S : Serializer β) (h : writes gt tr {} bag = some ws) :
    patch S gt tr (ws.flatMap (Written.messages S)) =
      some (ws.flatMap fun w => w.messages S ++ w.tfMessages S) := by
  rw [patch, writes_messages S h, Option.map_some, List.flatMap_assoc]
  simp only [messages_again]

/-- The messages written anew on `/tf` are as many as the odometry messages. -/
theorem length_tfMessages (S : Serializer β) (h : writes gt tr s bag = some ws) :
    (ws.flatMap (Written.tfMessages S)).length = (odoms bag).length := by
  induction bag generalizing s ws with
  | nil =>
    obtain rfl := Option.some.inj h
    rfl
  | cons msg bag ih =>
    rcases writes_cons_cases h with ⟨hodom, pose, ws', -, hws', rfl⟩ | ⟨hpath, hws⟩ |
      ⟨hodom, -, ws', hws', rfl⟩
    · rw [List.flatMap_cons, List.length_append, ih hws', odoms_cons, if_pos hodom,
        List.length_cons, Nat.add_comm]
      rfl
    · have hne : msg.topic ≠ "/car/base/odom" := by
        rw [hpath]
        decide
      rw [ih hws, odoms_cons, if_neg hne]
    · rw [List.flatMap_cons, List.length_append, ih hws', odoms_cons, if_neg hodom,
        Written.tfMessages, List.length_nil, Nat.zero_add]

theorem length_flatMap_append {α γ : Type*} (f g : α → List γ) (l : List α) :
    (l.flatMap fun a => f a ++ g a).length = (l.flatMap f).length + (l.flatMap g).length := by
  induction l with
  | nil => rfl
  | cons a l ih =>
    simp only [List.flatMap_cons, List.length_append, ih]
    omega

/-- What the second pass writes is the same only if there is no odometry. -/
theorem patch_twice_eq_iff (S : Serializer β) (h : writes gt tr {} bag = some ws) :
    patch S gt tr (ws.flatMap (Written.messages S)) = some (ws.flatMap (Written.messages S)) ↔
      ∀ msg ∈ bag, msg.topic ≠ "/car/base/odom" := by
  have hlength := length_tfMessages S h
  rw [patch_twice S h, Option.some.injEq]
  constructor
  · intro heq msg hmsg hodom
    have hsame := congrArg List.length heq
    have hpos : 0 < (odoms bag).length :=
      List.length_pos_of_mem (List.mem_filter.mpr ⟨hmsg, by simpa using hodom⟩)
    rw [length_flatMap_append, hlength] at hsame
    omega
  · intro hnone
    have hodoms : odoms bag = [] := List.filter_eq_nil_iff.mpr fun msg hmsg => by
      simpa using hnone msg hmsg
    rw [hodoms, List.length_nil, List.length_eq_zero_iff, List.flatMap_eq_nil_iff] at hlength
    refine List.flatMap_congr fun w hw => ?_
    rw [hlength w hw, List.append_nil]

/-- **A second pass** doubles every message the first has written anew on `/tf`, and changes nothing
else. -/
theorem patch_patch (S : Serializer β) (gt : List Homogeneous) (tr : Homogeneous)
    {bag out : List (BagMessage β)} (h : patch S gt tr bag = some out) :
    ∃ ws, writes gt tr {} bag = some ws ∧ out = ws.flatMap (Written.messages S) ∧
      patch S gt tr out = some (ws.flatMap fun w => w.messages S ++ w.tfMessages S) ∧
      (patch S gt tr out = some out ↔ ∀ msg ∈ bag, msg.topic ≠ "/car/base/odom") := by
  obtain ⟨ws, hws, rfl⟩ := Option.map_eq_some_iff.mp h
  exact ⟨ws, hws, rfl, patch_twice S hws, patch_twice_eq_iff S hws⟩

/-- A bag with an image, two poses and a path. -/
def shortBag : List (BagMessage ℕ) :=
  [⟨"/camera2/left/image_raw", 0, 5⟩, ⟨"/car/base/odom", 1, 5⟩, ⟨"/car/base/odom_path", 2, 5⟩,
    ⟨"/car/base/odom", 3, 7⟩]

/-- Of a message only its length is kept. -/
def lengths : Serializer ℕ where
  odometry _ := 1
  path p := p.poses.length
  tfMessage tfs := tfs.length

/-- With the topics of the recorder. -/
def recordedBag : Bag ℕ where
  topics := ["/camera2/left/image_raw", "/car/base/odom", "/car/base/odom_path"]
  messages := shortBag
  created := by decide

theorem main_recordedBag : ∃ out, main lengths [mount, mount] mount recordedBag = some out ∧
    others out.messages = [⟨"/camera2/left/image_raw", 0, 5⟩] ∧
    (onTopic "/tf" out.messages).length = 2 := by
  obtain ⟨hsome, hall⟩ := main_eq_allInPlace lengths [mount, mount] mount recordedBag (by decide)
    (by decide)
  obtain ⟨out, hout⟩ := Option.isSome_iff_exists.mp (hsome.mpr (by unfold Patchable; decide))
  obtain ⟨-, -, hothers, hlength⟩ := hall out hout
  exact ⟨out, hout, hothers.trans rfl, (hlength "/tf" (by decide)).trans (by decide)⟩

/-- An odometry message, in a bag with the topics `topics`. -/
def onePose (topics : List String) (h : "/car/base/odom" ∈ topics) (timestampNs : ℤ) : Bag ℕ where
  topics := topics
  messages := [⟨"/car/base/odom", 0, timestampNs⟩]
  created := by simpa using h

/-- Without a path topic the writer raises, and so does `Time` for the year 2038. -/
theorem not_patched :
    (¬ ∀ (S : Serializer ℕ) (gt : List Homogeneous) (tr : Homogeneous) (bag : Bag ℕ),
      "/tf" ∉ bag.topics → (odoms bag.messages).length ≤ gt.length →
      (main S gt tr bag).isSome) ∧
    ¬ ∀ (S : Serializer ℕ) (gt : List Homogeneous) (tr : Homogeneous) (bag : Bag ℕ),
      "/tf" ∉ bag.topics → (odoms bag.messages).length ≤ gt.length →
      "/car/base/odom_path" ∈ bag.topics → (main S gt tr bag).isSome := by
  constructor
  · intro h
    have hsome := h lengths [mount] mount (onePose ["/car/base/odom"] (by decide) 0) (by decide)
      (by decide)
    have hpath := ((main_isSome_iff (by decide)).mp hsome _ List.mem_cons_self).1
    exact absurd hpath (by decide)
  · intro h
    have hsome := h lengths [mount] mount
      (onePose ["/car/base/odom", "/car/base/odom_path"] (by decide) (2 ^ 31 * 10 ^ 9)) (by decide)
      (by decide) (by decide)
    have hstamp := ((main_isSome_iff (by decide)).mp hsome _ List.mem_cons_self).2
    exact absurd hstamp (by decide)

theorem patch_patch_shortBag : ∃ out, patch lengths [mount, mount] mount shortBag = some out ∧
    patch lengths [mount, mount] mount out ≠ some out := by
  have hout : patch lengths [mount, mount] mount shortBag = some _ := rfl
  obtain ⟨ws, -, -, -, hsame⟩ := patch_patch lengths [mount, mount] mount hout
  exact ⟨_, hout, fun heq => absurd (hsame.mp heq) (by decide)⟩

/-- One pose is enough. -/
theorem not_idempotent : ¬ ∀ (S : Serializer ℕ) (gt : List Homogeneous) (tr : Homogeneous)
    (bag out : List (BagMessage ℕ)), patch S gt tr bag = some out →
    patch S gt tr out = some out := by
  intro h
  have hws : writes [mount] mount {} [(⟨"/car/base/odom", 0, 0⟩ : BagMessage ℕ)] = some _ := rfl
  have hout := h lengths [mount] mount _ _ (Option.map_eq_some_iff.mpr ⟨_, hws, rfl⟩)
  exact absurd ((patch_twice_eq_iff lengths hws).mp hout) (by decide)

end

end RoverSwarm.Kitti.PatchTf
