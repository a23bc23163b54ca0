import RoverSwarm.Relay

/-!
# LateJoiners — what a latched topic of the relay still offers

A `TRANSIENT_LOCAL` publisher of depth 1 keeps its last message, and that is all a node gets that
joins later.  The relay publishes the fresh transforms of the message it handles and nothing it
has relayed before.  So the last message has the latest transform of every child frame exactly if
no message has left out a child frame that was relayed to its topic before.
-/

namespace RoverSwarm.Relay

open Transition

variable {α : Type*}

/-! ### What one message makes the relay publish -/

/-- The transforms of a message on the topic `source` that are to be relayed to `topic`. -/
def State.relays (s : State) (topic : Topic) (source : Topic) (msg : TFMessage α) :
    List (TransformStamped α) :=
  match topic, source with
  | .ns ns isStatic, .global isStatic' =>
    if isStatic = isStatic' ∧ ns ∈ s.namespaces then
      (s.freshGlobal isStatic msg).map fun t => prefixTransform t ns
    else []
  | .global isStatic, .ns ns isStatic' =>
    if isStatic = isStatic' ∧ ns ∈ s.namespaces then s.freshNs isStatic msg else []
  | _, _ => []

/-- The messages of the publications on a topic. -/
def onTopic (topic : Topic) (ps : List (Publication α)) : List (TFMessage α) :=
  (ps.filter fun p => p.topic = topic).map Publication.msg

theorem mem_onTopic {topic : Topic} {ps : List (Publication α)} {msg : TFMessage α} :
    msg ∈ onTopic topic ps ↔ ⟨topic, msg⟩ ∈ ps := by
  simp only [onTopic, List.mem_map, List.mem_filter, decide_eq_true_iff]
  constructor
  · rintro ⟨p, ⟨hp, rfl⟩, rfl⟩
    exact hp
  · exact fun h => ⟨_, ⟨h, rfl⟩, rfl⟩

theorem mem_onGlobalTf {s : State} {msg : TFMessage α} {isStatic : Bool} {p : Publication α} :
    p ∈ (onGlobalTf s msg isStatic).2 ↔ s.freshGlobal isStatic msg ≠ [] ∧ ∃ ns ∈ s.namespaces,
      p = ⟨.ns ns isStatic, ⟨(s.freshGlobal isStatic msg).map fun t => prefixTransform t ns⟩⟩ := by
  unfold onGlobalTf
  dsimp only
  split_ifs with he
  · simp [List.isEmpty_iff.mp he]
  · simp only [List.isEmpty_iff] at he
    simp only [List.mem_map, ne_eq, he, not_false_eq_true, true_and, eq_comm (a := p)]

theorem mem_onNsTf {s : State} {msg : TFMessage α} {isStatic : Bool} {p : Publication α} :
    p ∈ (onNsTf s msg isStatic).2 ↔ s.freshNs isStatic msg ≠ [] ∧
      p = ⟨.global isStatic, ⟨s.freshNs isStatic msg⟩⟩ := by
  unfold onNsTf
  dsimp only
  split_ifs with he
  · simp [List.isEmpty_iff.mp he]
  · simp only [List.isEmpty_iff] at he
    simp [he]

/-- **Publication lemma**: what is published on a topic is what is to be relayed to it, if that is
anything. -/
theorem mem_onTopic_handle {s : State} {topic source : Topic} {msg msg' : TFMessage α} :
    msg' ∈ onTopic topic (handle s source msg).2 ↔
      s.relays topic source msg ≠ [] ∧ msg' = ⟨s.relays topic source msg⟩ := by
  rw [mem_onTopic]
  cases source with
  | global isStatic' =>
    rw [handle_global, mem_onGlobalTf]
    cases topic with
    | global isStatic => simp [State.relays]
    | ns ns isStatic =>
      simp only [State.relays, Publication.mk.injEq, Topic.ns.injEq]
      constructor
      · rintro ⟨hne, _, hns, ⟨rfl, rfl⟩, rfl⟩
        rw [if_pos ⟨rfl, hns⟩]
        exact ⟨by simpa using hne, rfl⟩
      · split_ifs with h
        · rintro ⟨hne, rfl⟩
          obtain ⟨rfl, hns⟩ := h
          exact ⟨by simpa using hne, ns, hns, ⟨rfl, rfl⟩, rfl⟩
        · exact fun h => absurd rfl h.1
  | ns ns isStatic' =>
    rw [handle_ns]
    cases topic with
    | global isStatic =>
      simp only [State.relays]
      by_cases hns : ns ∈ s.namespaces
      · rw [if_pos hns, mem_onNsTf]
        simp only [Publication.mk.injEq, Topic.global.injEq, hns, and_true]
        constructor
        · rintro ⟨hne, rfl, rfl⟩
          rw [if_pos rfl]
          exact ⟨hne, rfl⟩
        · split_ifs with h
          · rintro ⟨hne, rfl⟩
            subst h
            exact ⟨hne, rfl, rfl⟩
          · exact fun h => absurd rfl h.1
      · rw [if_neg hns]
        simp [hns]
    | ns ns' isStatic =>
      simp only [State.relays]
      split_ifs
      · simp [mem_onNsTf]
      · simp

/-! ### Runs -/

/-- The relay handling one message after the other, each with its topic. -/
def relay (α : Type*) (namespaces : List String) :
    Process State (Topic × TFMessage α) (List (Publication α)) where
  init := { namespaces }
  step s e := handle s e.1 e.2

variable {namespaces : List String} {topic : Topic}

/-- The messages published on the topic in a run. -/
def published (namespaces : List String) (topic : Topic) (es : List (Topic × TFMessage α)) :
    List (TFMessage α) :=
  onTopic topic ((relay α namespaces).outputs es).flatten

/-- The transforms relayed to the topic in a run, in order. -/
def relayed (namespaces : List String) (topic : Topic) (es : List (Topic × TFMessage α)) :
    List (TransformStamped α) :=
  (published namespaces topic es).flatMap TFMessage.transforms

/-- What the next message is to relay to the topic after a run. -/
def relaysNext (namespaces : List String) (topic : Topic) (es : List (Topic × TFMessage α))
    (e : Topic × TFMessage α) : List (TransformStamped α) :=
  ((relay α namespaces).after es).relays topic e.1 e.2

/-- The transform, if it is to the child frame. -/
def toChild (child : String) (t : TransformStamped α) : Option (TransformStamped α) :=
  if t.childFrameId = child then some t else none

/-- The last message on the topic has the latest transform to every child frame that has been
relayed to it. -/
def KeepsLatest (namespaces : List String) (topic : Topic) (es : List (Topic × TFMessage α)) :
    Prop :=
  ∀ child t, lastOf (toChild child) (relayed namespaces topic es) = some t →
    ∃ msg, (published namespaces topic es).getLast? = some msg ∧ t ∈ msg.transforms

/-- A message that relays anything to the topic names all child frames relayed to it before. -/
def NamesAll (namespaces : List String) (topic : Topic) (es : List (Topic × TFMessage α))
    (e : Topic × TFMessage α) : Prop :=
  relaysNext namespaces topic es e = [] ∨ ∀ t ∈ relayed namespaces topic es,
    ∃ t' ∈ relaysNext namespaces topic es e, t'.childFrameId = t.childFrameId

theorem toChild_eq_some {child : String} {t t' : TransformStamped α} :
    toChild child t = some t' ↔ t.childFrameId = child ∧ t = t' := by
  unfold toChild
  split_ifs with h
  · simp [h]
  · simp [h]

theorem mem_of_lastOf_toChild {child : String} {ts : List (TransformStamped α)}
    {t : TransformStamped α} (h : lastOf (toChild child) ts = some t) :
    t ∈ ts ∧ t.childFrameId = child := by
  obtain ⟨u, hu, heq⟩ := exists_of_lastOf_eq_some h
  obtain ⟨hchild, rfl⟩ := toChild_eq_some.mp heq
  exact ⟨hu, hchild⟩

theorem lastOf_toChild_eq_none {child : String} {ts : List (TransformStamped α)}
    (h : lastOf (toChild child) ts = none) : ∀ t ∈ ts, t.childFrameId ≠ child := by
  intro t ht hchild
  have hnone := lastOf_eq_none_iff.mp h t ht
  exact absurd (hnone.symm.trans (toChild_eq_some.mpr ⟨hchild, rfl⟩)) (by simp)

theorem published_concat (es : List (Topic × TFMessage α)) (e : Topic × TFMessage α) :
    published namespaces topic (es ++ [e]) = published namespaces topic es ++
      onTopic topic (handle ((relay α namespaces).after es) e.1 e.2).2 := by
  unfold published onTopic
  rw [Process.outputs_concat, List.flatten_append, List.flatten_singleton, List.filter_append,
    List.map_append]
  rfl

/-- Where a message is published several times, as for a namespace given twice, the last transforms
are those of one message. -/
theorem lastOf_flatMap {msgs : List (TFMessage α)} {ts : List (TransformStamped α)}
    (hne : msgs ≠ []) (hall : ∀ msg ∈ msgs, msg.transforms = ts) (child : String) :
    lastOf (toChild child) (msgs.flatMap TFMessage.transforms) = lastOf (toChild child) ts := by
  induction msgs using List.reverseRecOn with
  | nil => exact absurd rfl hne
  | append_singleton msgs msg ih =>
    have hmsg : msg.transforms = ts := hall msg (List.mem_append_right _ List.mem_cons_self)
    rw [List.flatMap_append, List.flatMap_singleton, hmsg, lastOf_append]
    cases hlast : lastOf (toChild child) ts with
    | some t => rfl
    | none =>
      rw [Option.none_or]
      by_cases hnil : msgs = []
      · rw [hnil]
        rfl
      · rw [ih hnil fun m hm => hall m (List.mem_append_left _ hm), hlast]

/-- A message that relays nothing to the topic changes nothing on it. -/
theorem published_concat_of_nil {es : List (Topic × TFMessage α)} {e : Topic × TFMessage α}
    (hnil : relaysNext namespaces topic es e = []) :
    published namespaces topic (es ++ [e]) = published namespaces topic es := by
  have hnone : onTopic topic (handle ((relay α namespaces).after es) e.1 e.2).2 = [] :=
    List.eq_nil_iff_forall_not_mem.mpr fun _ hmsg => (mem_onTopic_handle.mp hmsg).1 hnil
  rw [published_concat, hnone, List.append_nil]

/-- A message that relays something to the topic is the last one there, and its transforms are the
latest ones. -/
theorem published_concat_of_ne_nil {es : List (Topic × TFMessage α)} {e : Topic × TFMessage α}
    (hnil : relaysNext namespaces topic es e ≠ []) :
    (published namespaces topic (es ++ [e])).getLast? = some ⟨relaysNext namespaces topic es e⟩ ∧
    ∀ child, lastOf (toChild child) (relayed namespaces topic (es ++ [e])) =
      (lastOf (toChild child) (relaysNext namespaces topic es e)).or
        (lastOf (toChild child) (relayed namespaces topic es)) := by
  set next := relaysNext namespaces topic es e
  set new := onTopic topic (handle ((relay α namespaces).after es) e.1 e.2).2 with hnew
  have hmem : ∀ msg, msg ∈ new ↔ next ≠ [] ∧ msg = ⟨next⟩ := fun msg => mem_onTopic_handle
  have hne : new ≠ [] := List.ne_nil_of_mem ((hmem ⟨next⟩).mpr ⟨hnil, rfl⟩)
  refine ⟨?_, fun child => ?_⟩
  · rw [published_concat, ← hnew, List.getLast?_append_of_ne_nil _ hne,
      List.getLast?_eq_some_getLast hne]
    exact congrArg some ((hmem _).mp (List.getLast_mem hne)).2
  · unfold relayed
    rw [published_concat, ← hnew, List.flatMap_append, lastOf_append, lastOf_flatMap hne]
    intro msg hmsg
    rw [((hmem msg).mp hmsg).2]

/-- **Step lemma**: a step keeps the latest transforms exactly if it relays nothing to the topic or
names all child frames. -/
theorem keepsLatest_concat_iff {es : List (Topic × TFMessage α)} {e : Topic × TFMessage α}
    (h : KeepsLatest namespaces topic es) :
    KeepsLatest namespaces topic (es ++ [e]) ↔ NamesAll namespaces topic es e := by
  by_cases hnil : relaysNext namespaces topic es e = []
  · refine iff_of_true ?_ (Or.inl hnil)
    unfold KeepsLatest relayed
    rw [published_concat_of_nil hnil]
    exact h
  · obtain ⟨hlast, hrelayed⟩ := published_concat_of_ne_nil hnil
    unfold KeepsLatest NamesAll
    simp only [hlast, hrelayed, hnil, false_or, Option.some.injEq, exists_eq_left']
    constructor
    · intro hkeeps t ht
      cases hlatest : (lastOf (toChild t.childFrameId) (relaysNext namespaces topic es e)).or
          (lastOf (toChild t.childFrameId) (relayed namespaces topic es)) with
      | none => exact absurd rfl (lastOf_toChild_eq_none (Option.or_eq_none_iff.mp hlatest).2 t ht)
      | some t' =>
        refine ⟨t', hkeeps t.childFrameId t' hlatest, ?_⟩
        rcases Option.or_eq_some_iff.mp hlatest with hsome | ⟨-, hsome⟩
        · exact (mem_of_lastOf_toChild hsome).2
        · exact (mem_of_lastOf_toChild hsome).2
    · intro hnames child t hlatest
      rcases Option.or_eq_some_iff.mp hlatest with hsome | ⟨hnone, hsome⟩
      · exact (mem_of_lastOf_toChild hsome).1
      · -- an earlier child frame is named again
        obtain ⟨ht, hchild⟩ := mem_of_lastOf_toChild hsome
        obtain ⟨t', ht', hname⟩ := hnames t ht
        exact absurd (hname.trans hchild) (lastOf_toChild_eq_none hnone t' ht')

/-- **Late joiners**: at every moment the last message on a topic of the relay has the latest
transform to every child frame relayed to it, exactly if every message that relays anything to it
names all child frames that were relayed to it before. -/
theorem keepsLatest_iff (namespaces : List String) (topic : Topic)
    (es : List (Topic × TFMessage α)) :
    (∀ pre, pre <+: es → KeepsLatest namespaces topic pre) ↔
      ∀ pre e, pre ++ [e] <+: es → NamesAll namespaces topic pre e := by
  constructor
  · intro h pre e hp
    exact (keepsLatest_concat_iff (h pre ((List.prefix_append pre [e]).trans hp))).mp (h _ hp)
  · intro h pre hp
    induction pre using List.reverseRecOn with
    | nil => exact fun child t ht => absurd ht (by simp [relayed, published, onTopic])
    | append_singleton pre e ih =>
      exact (keepsLatest_concat_iff (ih ((List.prefix_append pre [e]).trans hp))).mpr (h pre e hp)

/-- Two nodes publish the static transforms of one rover, one after the other. -/
def twoSources : List (Topic × TFMessage Unit) :=
  [(.global true, ⟨[⟨"base_link", ⟨0, 0⟩, "lidar_link", ()⟩]⟩),
    (.global true, ⟨[⟨"base_link", ⟨0, 0⟩, "camera_link", ()⟩]⟩)]

/-- A node that joins after both gets the camera only. -/
theorem not_keepsLatest : ¬ ∀ (namespaces : List String) (ns : String)
    (es : List (Topic × TFMessage Unit)), KeepsLatest namespaces (.ns ns true) es := by
  intro h
  obtain ⟨msg, hlast, hmem⟩ := h ["rover_0"] "rover_0" twoSources "rover_0/lidar_link"
    ⟨"rover_0/base_link", ⟨0, 0⟩, "rover_0/lidar_link", ()⟩ (by decide +kernel)
  have hcamera : (published ["rover_0"] (.ns "rover_0" true) twoSources).getLast? =
      some ⟨[⟨"rover_0/base_link", ⟨0, 0⟩, "rover_0/camera_link", ()⟩]⟩ := by decide +kernel
  obtain rfl := Option.some.inj (hlast.symm.trans hcamera)
  exact absurd hmem (by decide)

end RoverSwarm.Relay
