import RoverSwarm.LateJoiners

/-!
# Namespacing — the tree of frames in a namespace

The relay names the frames of the global topic after the namespace, except those that are named so
already.  A frame `map` and a frame `ns/map` then have one name, and two parents if both have one.
As long as no two children meet like this, the tree stays a tree.
-/

namespace RoverSwarm.Relay

open Transition

variable {α : Type*}

/-! ### Names -/

/-- The name has the namespace already. -/
def Namespaced (ns frame : String) : Prop :=
  startsWith frame (ns ++ "/") = true ∨ startsWith frame ("/" ++ ns ++ "/") = true

instance (ns frame : String) : Decidable (Namespaced ns frame) :=
  inferInstanceAs (Decidable (_ ∨ _))

theorem namespaced_append (ns frame : String) : Namespaced ns (ns ++ "/" ++ frame) := by
  refine Or.inl (List.isPrefixOf_iff_prefix.mpr ?_)
  rw [String.toList_append (s := ns ++ "/")]
  exact List.prefix_append _ _

theorem prefixFrame_of_namespaced {ns frame : String} (h : Namespaced ns frame) :
    prefixFrame frame ns = frame := if_pos h

theorem prefixFrame_of_bare {ns frame : String} (h : ¬ Namespaced ns frame) :
    prefixFrame frame ns = ns ++ "/" ++ frame := if_neg h

/-- Two names meet only if one of them is the other with the namespace. -/
theorem prefixFrame_eq {ns c d : String} (h : prefixFrame c ns = prefixFrame d ns) :
    c = d ∨ (¬ Namespaced ns c ∧ d = ns ++ "/" ++ c) ∨ (¬ Namespaced ns d ∧ c = ns ++ "/" ++ d) := by
  by_cases hc : Namespaced ns c
  · rw [prefixFrame_of_namespaced hc] at h
    by_cases hd : Namespaced ns d
    · exact Or.inl (h.trans (prefixFrame_of_namespaced hd))
    · exact Or.inr (Or.inr ⟨hd, h.trans (prefixFrame_of_bare hd)⟩)
  · rw [prefixFrame_of_bare hc] at h
    by_cases hd : Namespaced ns d
    · exact Or.inr (Or.inl ⟨hc, (h.trans (prefixFrame_of_namespaced hd)).symm⟩)
    · rw [prefixFrame_of_bare hd] at h
      exact Or.inl ((String.append_right_inj _).mp h)

theorem prefixTransform_childFrameId (t : TransformStamped α) (ns : String) :
    (prefixTransform t ns).childFrameId = prefixFrame t.childFrameId ns := by
  unfold prefixTransform
  split_ifs with h
  · exact (prefixFrame_of_namespaced h).symm
  · rfl

/-- The parent depends on the two names only. -/
theorem prefixTransform_frameId_congr {t t' : TransformStamped α} (ns : String)
    (hchild : t.childFrameId = t'.childFrameId) (hframe : t.frameId = t'.frameId) :
    (prefixTransform t ns).frameId = (prefixTransform t' ns).frameId := by
  unfold prefixTransform
  rw [hchild]
  split_ifs
  · exact hframe
  · rw [hframe]

/-! ### Trees -/

/-- Every child frame has at most one parent. -/
def OneParent (ts : List (TransformStamped α)) : Prop :=
  ∀ t ∈ ts, ∀ t' ∈ ts, t.childFrameId = t'.childFrameId → t.frameId = t'.frameId

/-- Different child frames have different names in the namespace. -/
def KeepsNames (ns : String) (ts : List (TransformStamped α)) : Prop :=
  ∀ t ∈ ts, ∀ t' ∈ ts, (prefixTransform t ns).childFrameId = (prefixTransform t' ns).childFrameId →
    t.childFrameId = t'.childFrameId

/-- No child frame is named as another one will be. -/
def NoClash (ns : String) (ts : List (TransformStamped α)) : Prop :=
  ∀ t ∈ ts, ¬ Namespaced ns t.childFrameId → ∀ t' ∈ ts,
    t'.childFrameId ≠ ns ++ "/" ++ t.childFrameId

theorem keepsNames_iff {ns : String} {ts : List (TransformStamped α)} :
    KeepsNames ns ts ↔ NoClash ns ts := by
  unfold KeepsNames
  simp only [prefixTransform_childFrameId]
  constructor
  · intro h t ht hbare t' ht' hname
    have hmeet : prefixFrame t.childFrameId ns = prefixFrame t'.childFrameId ns := by
      rw [prefixFrame_of_bare hbare, hname, prefixFrame_of_namespaced (namespaced_append _ _)]
    refine hbare ?_
    rw [h t ht t' ht' hmeet, hname]
    exact namespaced_append _ _
  · intro h t ht t' ht' hmeet
    rcases prefixFrame_eq hmeet with heq | ⟨hbare, hname⟩ | ⟨hbare, hname⟩
    · exact heq
    · exact absurd hname (h t ht hbare t' ht')
    · exact absurd hname (h t' ht' hbare t ht)

theorem OneParent.prefixed {ns : String} {ts : List (TransformStamped α)} (h : OneParent ts)
    (hnames : KeepsNames ns ts) : OneParent (ts.map fun t => prefixTransform t ns) := by
  intro r hr r' hr' hchild
  obtain ⟨t, ht, rfl⟩ := List.mem_map.mp hr
  obtain ⟨t', ht', rfl⟩ := List.mem_map.mp hr'
  have hsame := hnames t ht t' ht' hchild
  exact prefixTransform_frameId_congr ns hsame (h t ht t' ht' hsame)

/-! ### Runs -/

variable {namespaces : List String} {isStatic : Bool}

/-- The transforms of the messages on a global topic that the relay has not published itself. -/
def freshFrom (isStatic : Bool) : State → List (Topic × TFMessage α) → List (TransformStamped α)
  | _, [] => []
  | s, e :: es => (if e.1 = .global isStatic then s.freshGlobal isStatic e.2 else []) ++
    freshFrom isStatic (handle s e.1 e.2).1 es

theorem handle_namespaces (s : State) (topic : Topic) (msg : TFMessage α) :
    (handle s topic msg).1.namespaces = s.namespaces := by
  cases topic with
  | global isStatic =>
    rw [handle_global]
    unfold onGlobalTf
    dsimp only
    split_ifs
    · rfl
    · rfl
  | ns ns isStatic =>
    rw [handle_ns]
    unfold onNsTf
    dsimp only
    split_ifs
    · rfl
    · rfl
    · rfl

/-- What a message makes the relay publish on the topic of a namespace. -/
theorem mem_relays {s : State} {ns : String} (hns : ns ∈ s.namespaces) (e : Topic × TFMessage α)
    (t : TransformStamped α) : t ∈ s.relays (.ns ns isStatic) e.1 e.2 ↔
      ∃ t₀ ∈ if e.1 = .global isStatic then s.freshGlobal isStatic e.2 else [],
        prefixTransform t₀ ns = t := by
  obtain ⟨source, msg⟩ := e
  cases source with
  | global isStatic' =>
    by_cases hstatic : isStatic = isStatic'
    · subst hstatic
      simp [State.relays, hns]
    · simp [State.relays, hstatic, Ne.symm hstatic]
  | ns ns' isStatic' => simp [State.relays]

theorem mem_flatMap_onTopic {topic : Topic} {s : State} {e : Topic × TFMessage α}
    {t : TransformStamped α} :
    t ∈ (onTopic topic (handle s e.1 e.2).2).flatMap TFMessage.transforms ↔
      t ∈ s.relays topic e.1 e.2 := by
  rw [List.mem_flatMap]
  constructor
  · rintro ⟨msg, hmsg, ht⟩
    rwa [(mem_onTopic_handle.mp hmsg).2] at ht
  · exact fun ht => ⟨_, mem_onTopic_handle.mpr ⟨List.ne_nil_of_mem ht, rfl⟩, ht⟩

/-- **Run lemma**: on the topic of a namespace are the fresh transforms of the global topic, with
the namespace. -/
theorem mem_relayed_iff {ns : String} (hns : ns ∈ namespaces) (es : List (Topic × TFMessage α))
    (t : TransformStamped α) : t ∈ relayed namespaces (.ns ns isStatic) es ↔
      ∃ t₀ ∈ freshFrom isStatic { namespaces } es, prefixTransform t₀ ns = t := by
  suffices hfrom : ∀ s : State, ns ∈ s.namespaces →
      (t ∈ (onTopic (.ns ns isStatic)
        ((relay α namespaces).outputsFrom s es).flatten).flatMap TFMessage.transforms ↔
        ∃ t₀ ∈ freshFrom isStatic s es, prefixTransform t₀ ns = t) from hfrom _ hns
  induction es with
  | nil => simp [Process.outputsFrom, onTopic, freshFrom]
  | cons e es ih =>
    intro s hs
    have hrest := ih (handle s e.1 e.2).1 (by rwa [handle_namespaces])
    have hsplit : onTopic (.ns ns isStatic) ((relay α namespaces).outputsFrom s (e :: es)).flatten =
        onTopic (.ns ns isStatic) (handle s e.1 e.2).2 ++ onTopic (.ns ns isStatic)
          ((relay α namespaces).outputsFrom (handle s e.1 e.2).1 es).flatten := by
      unfold onTopic
      rw [Process.outputsFrom, List.flatten_cons, List.filter_append, List.map_append]
      rfl
    rw [hsplit, List.flatMap_append, List.mem_append, hrest, mem_flatMap_onTopic, mem_relays hs,
      freshFrom]
    simp only [List.mem_append, or_and_right, exists_or]

/-- **The tree of a namespace**: for a tree on the global topic the transforms relayed into a
namespace are a tree with different names for different child frames exactly if no child frame is
named as another one is in the namespace. -/
theorem keepsTree_iff {ns : String} (hns : ns ∈ namespaces) (isStatic : Bool)
    {es : List (Topic × TFMessage α)} (h : OneParent (freshFrom isStatic { namespaces } es)) :
    (OneParent (relayed namespaces (.ns ns isStatic) es) ∧
      KeepsNames ns (freshFrom isStatic { namespaces } es)) ↔
    NoClash ns (freshFrom isStatic { namespaces } es) := by
  rw [← keepsNames_iff]
  refine ⟨fun hboth => hboth.2, fun hnames => ⟨?_, hnames⟩⟩
  have htree := h.prefixed hnames
  intro t ht t' ht' hchild
  refine htree t ?_ t' ?_ hchild
  · exact List.mem_map.mpr ((mem_relayed_iff hns es t).mp ht)
  · exact List.mem_map.mpr ((mem_relayed_iff hns es t').mp ht')

instance (ts : List (TransformStamped α)) : Decidable (OneParent ts) :=
  inferInstanceAs (Decidable (∀ t ∈ ts, ∀ t' ∈ ts, _ → _))

instance (ns : String) (ts : List (TransformStamped α)) : Decidable (NoClash ns ts) :=
  inferInstanceAs (Decidable (∀ t ∈ ts, ¬ _ → ∀ t' ∈ ts, _ ≠ _))

/-- The odometry of a rover, and the map of its namespace below the global one. -/
def namespacedMap : List (Topic × TFMessage Unit) :=
  [(.global false, ⟨[⟨"odom", ⟨0, 0⟩, "base_link", ()⟩, ⟨"map", ⟨0, 0⟩, "rover_0/map", ()⟩]⟩)]

theorem keepsTree_namespacedMap :
    OneParent (relayed ["rover_0"] (.ns "rover_0" false) namespacedMap) :=
  have htree : OneParent
      (freshFrom false { namespaces := ["rover_0"] } namespacedMap) := by decide +kernel
  ((keepsTree_iff (show "rover_0" ∈ ["rover_0"] by decide) false htree).mpr
    (by decide +kernel)).1

/-- With a frame above the global map, the map of the namespace has two parents. -/
def mapBelowWorld : List (Topic × TFMessage Unit) :=
  [(.global false, ⟨[⟨"world", ⟨0, 0⟩, "map", ()⟩, ⟨"map", ⟨0, 0⟩, "rover_0/map", ()⟩]⟩)]

theorem not_keepsTree : ¬ ∀ (namespaces : List String) (ns : String)
    (es : List (Topic × TFMessage Unit)), ns ∈ namespaces →
    OneParent (freshFrom false { namespaces } es) →
    OneParent (relayed namespaces (.ns ns false) es) ∧
      KeepsNames ns (freshFrom false { namespaces } es) := by
  intro h
  have htree := h ["rover_0"] "rover_0" mapBelowWorld (by decide) (by decide +kernel)
  exact absurd htree.1 (by decide +kernel)

end RoverSwarm.Relay
