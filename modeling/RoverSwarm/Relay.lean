import Mathlib.Data.Finset.Max
import Mathlib.Algebra.BigOperators.Group.List.Basic
import Mathlib.Algebra.GroupWithZero.Nat
import RoverSwarm.Lib.Transition

/-!
# Relay — `tf_relay.py` on a network that returns its own publications

The relay copies transforms between the global TF topics and one pair of topics per namespace, and
subscribes to every topic it publishes on.  `network` keeps all it ever published and may return
any of it, any number of times and in any order, mixed with messages of others.  As long as no
tracker grows beyond its cap, a transform published to a global topic stays in the outbound
tracker of that topic and one published to a namespace topic stays in the inbound tracker, so a
returned message contains nothing fresh.
-/

namespace RoverSwarm.Relay

open Transition

variable {α : Type*}

/-! ### Messages -/

structure Stamp where
  sec : ℤ
  nanosec : ℕ
deriving DecidableEq, Repr

/-- A stamped transform; the relay copies the transform itself and never looks at it. -/
structure TransformStamped (α : Type*) where
  frameId : String
  stamp : Stamp
  childFrameId : String
  transform : α
deriving DecidableEq, Repr

structure TFMessage (α : Type*) where
  transforms : List (TransformStamped α)
deriving DecidableEq, Repr

/-- `_frame_pair`. -/
def framePair (t : TransformStamped α) : String × String := (t.frameId, t.childFrameId)

/-! ### The trackers -/

/-- A key of `_EchoTracker._entries`: frame pair, seconds, nanoseconds. -/
abbrev Entry := (String × String) × ℤ × ℕ

def entryOf (pair : String × String) (stamp : Stamp) : Entry := (pair, stamp.sec, stamp.nanosec)

/-- `_EchoTracker`. -/
structure EchoTracker where
  entries : Finset Entry := ∅
  windowSec : ℤ := 60
  cap : ℕ := 20000
deriving DecidableEq

namespace EchoTracker

def contains (tr : EchoTracker) (pair : String × String) (stamp : Stamp) : Bool :=
  entryOf pair stamp ∈ tr.entries

/-- Drop the entries more than `windowSec` older than the newest one. -/
def prune (tr : EchoTracker) : EchoTracker :=
  let newest := (tr.entries.image fun k => k.2.1).max.unbotD 0
  let cutoff := newest - tr.windowSec
  { tr with entries := tr.entries.filter fun k => cutoff ≤ k.2.1 }

def add (tr : EchoTracker) (pair : String × String) (stamp : Stamp) : EchoTracker :=
  let tr := { tr with entries := insert (entryOf pair stamp) tr.entries }
  if tr.cap < tr.entries.card then tr.prune else tr

/-- `add` for one frame pair and stamp after the other. -/
def addAll (tr : EchoTracker) : List ((String × String) × Stamp) → EchoTracker
  | [] => tr
  | (pair, stamp) :: ks => (tr.add pair stamp).addAll ks

/-- No `add` of `addAll` leaves more than `cap` entries, so none of them prunes. -/
def Fits (tr : EchoTracker) : List ((String × String) × Stamp) → Prop
  | [] => True
  | (pair, stamp) :: ks =>
    (insert (entryOf pair stamp) tr.entries).card ≤ tr.cap ∧ (tr.add pair stamp).Fits ks

instance decidableFits : (tr : EchoTracker) → (ks : List ((String × String) × Stamp)) →
    Decidable (tr.Fits ks)
  | _, [] => isTrue trivial
  | tr, (pair, stamp) :: ks =>
    have := decidableFits (tr.add pair stamp) ks
    inferInstanceAs (Decidable ((insert (entryOf pair stamp) tr.entries).card ≤ tr.cap ∧
      (tr.add pair stamp).Fits ks))

theorem contains_iff {tr : EchoTracker} {pair : String × String} {stamp : Stamp} :
    tr.contains pair stamp = true ↔ entryOf pair stamp ∈ tr.entries := by
  simp [contains]

theorem add_entries {tr : EchoTracker} {pair : String × String} {stamp : Stamp}
    (h : (insert (entryOf pair stamp) tr.entries).card ≤ tr.cap) :
    (tr.add pair stamp).entries = insert (entryOf pair stamp) tr.entries := by
  unfold add
  rw [if_neg (not_lt.mpr h)]

/-- While nothing is pruned, the entries are the old ones and the added ones. -/
theorem mem_addAll {tr : EchoTracker} {ks : List ((String × String) × Stamp)} (h : tr.Fits ks)
    (k : Entry) :
    k ∈ (tr.addAll ks).entries ↔ k ∈ tr.entries ∨ ∃ p ∈ ks, entryOf p.1 p.2 = k := by
  induction ks generalizing tr with
  | nil => simp [addAll]
  | cons p ks ih =>
    obtain ⟨pair, stamp⟩ := p
    obtain ⟨hcap, hks⟩ := h
    rw [addAll, ih hks, add_entries hcap, Finset.mem_insert, List.exists_mem_cons_iff, eq_comm]
    tauto

end EchoTracker

/-! ### Frame names -/

def startsWith (s start : String) : Bool := start.toList.isPrefixOf s.toList

/-- `_prefix_frame`. -/
def prefixFrame (frame ns : String) : String :=
  if startsWith frame (ns ++ "/") ∨ startsWith frame ("/" ++ ns ++ "/") then frame
  else ns ++ "/" ++ frame

/-- `_prefix_transform`. -/
def prefixTransform (tf : TransformStamped α) (ns : String) : TransformStamped α :=
  if startsWith tf.childFrameId (ns ++ "/") ∨ startsWith tf.childFrameId ("/" ++ ns ++ "/") then tf
  else { tf with
    frameId := prefixFrame tf.frameId ns
    childFrameId := prefixFrame tf.childFrameId ns }

@[simp] theorem prefixTransform_stamp (tf : TransformStamped α) (ns : String) :
    (prefixTransform tf ns).stamp = tf.stamp := by
  unfold prefixTransform
  split_ifs <;> rfl

/-! ### The relay -/

/-- A topic of the relay; `isStatic` tells `tf_static` from `tf`. -/
inductive Topic
  | global (isStatic : Bool)
  | ns (ns : String) (isStatic : Bool)
deriving DecidableEq, Repr

structure Publication (α : Type*) where
  topic : Topic
  msg : TFMessage α
deriving DecidableEq, Repr

/-- The state of `main`: the namespaces and the two trackers of the dynamic and of the static
topics. -/
structure State where
  namespaces : List String
  outbound : Bool → EchoTracker := fun _ => {}
  inbound : Bool → EchoTracker := fun _ => {}

/-- The transforms of a global message that the relay did not publish itself. -/
def State.freshGlobal (s : State) (isStatic : Bool) (msg : TFMessage α) :
    List (TransformStamped α) :=
  msg.transforms.filter fun t => !(s.outbound isStatic).contains (framePair t) t.stamp

/-- What `on_global_tf` records, in order. -/
def State.inboundKeys (s : State) (fresh : List (TransformStamped α)) :
    List ((String × String) × Stamp) :=
  fresh.flatMap fun t => s.namespaces.map fun ns => (framePair (prefixTransform t ns), t.stamp)

/-- `on_global_tf`. -/
def onGlobalTf (s : State) (msg : TFMessage α) (isStatic : Bool) : State × List (Publication α) :=
  let fresh := s.freshGlobal isStatic msg
  if fresh.isEmpty then (s, []) else
  let inbound := (s.inbound isStatic).addAll (s.inboundKeys fresh)
  ({ s with inbound := Function.update s.inbound isStatic inbound },
    s.namespaces.map fun ns => ⟨.ns ns isStatic, ⟨fresh.map fun t => prefixTransform t ns⟩⟩)

/-- The transforms of a namespace message that the relay neither published to the global topic nor
relayed into a namespace. -/
def State.freshNs (s : State) (isStatic : Bool) (msg : TFMessage α) : List (TransformStamped α) :=
  msg.transforms.filter fun t => !(s.outbound isStatic).contains (framePair t) t.stamp &&
    !(s.inbound isStatic).contains (framePair t) t.stamp

/-- What `on_ns_tf` records, in order. -/
def outboundKeys (fresh : List (TransformStamped α)) : List ((String × String) × Stamp) :=
  fresh.map fun t => (framePair t, t.stamp)

/-- `on_ns_tf`; its parameter `ns` is not read. -/
def onNsTf (s : State) (msg : TFMessage α) (isStatic : Bool) : State × List (Publication α) :=
  let fresh := s.freshNs isStatic msg
  if fresh.isEmpty then (s, []) else
  let outbound := (s.outbound isStatic).addAll (outboundKeys fresh)
  ({ s with outbound := Function.update s.outbound isStatic outbound },
    [⟨.global isStatic, ⟨fresh⟩⟩])

/-- The subscriptions: a message on the topic of a namespace the relay was not given reaches no
callback. -/
def handle (s : State) : Topic → TFMessage α → State × List (Publication α)
  | .global isStatic, msg => onGlobalTf s msg isStatic
  | .ns ns isStatic, msg => if ns ∈ s.namespaces then onNsTf s msg isStatic else (s, [])

@[simp] theorem handle_global (s : State) (isStatic : Bool) (msg : TFMessage α) :
    handle s (.global isStatic) msg = onGlobalTf s msg isStatic := rfl

@[simp] theorem handle_ns (s : State) (ns : String) (isStatic : Bool) (msg : TFMessage α) :
    handle s (.ns ns isStatic) msg =
      if ns ∈ s.namespaces then onNsTf s msg isStatic else (s, []) := rfl

/-- No tracker exceeds its cap while a message is handled. -/
def FitsCap (s : State) : Topic → TFMessage α → Prop
  | .global isStatic, msg =>
    (s.inbound isStatic).Fits (s.inboundKeys (s.freshGlobal isStatic msg))
  | .ns ns isStatic, msg =>
    ns ∈ s.namespaces → (s.outbound isStatic).Fits (outboundKeys (s.freshNs isStatic msg))

instance (s : State) : (topic : Topic) → (msg : TFMessage α) → Decidable (FitsCap s topic msg)
  | .global _, _ => inferInstanceAs (Decidable (EchoTracker.Fits _ _))
  | .ns _ _, _ => inferInstanceAs (Decidable (_ → EchoTracker.Fits _ _))

/-! ### The network -/

/-- The relay and everything it ever published. -/
structure Net (α : Type*) where
  relay : State
  sent : List (Publication α)

inductive Event (α : Type*)
  /-- A message of another node reaches the relay's subscriptions. -/
  | external (topic : Topic) (msg : TFMessage α)
  /-- The `i`-th publication of the relay comes back to it. -/
  | deliverOwn (i : ℕ)
deriving DecidableEq, Repr

def Net.receive (s : Net α) (topic : Topic) (msg : TFMessage α) : Net α × List (Publication α) :=
  (⟨(handle s.relay topic msg).1, s.sent ++ (handle s.relay topic msg).2⟩,
    (handle s.relay topic msg).2)

def Net.step (s : Net α) : Event α → Net α × List (Publication α)
  | .external topic msg => s.receive topic msg
  | .deliverOwn i =>
    match s.sent[i]? with
    | none => (s, [])
    | some p => s.receive p.topic p.msg

def network (α : Type*) (namespaces : List String) :
    Process (Net α) (Event α) (List (Publication α)) where
  init := ⟨{ namespaces }, []⟩
  step := Net.step

@[simp] theorem network_step (namespaces : List String) :
    (network α namespaces).step = Net.step := rfl

/-- No tracker exceeds its cap in the step. -/
def WithinCap (s : Net α) : Event α → Prop
  | .external topic msg => FitsCap s.relay topic msg
  | .deliverOwn i => ∀ p ∈ s.sent[i]?, FitsCap s.relay p.topic p.msg

instance (s : Net α) : (e : Event α) → Decidable (WithinCap s e)
  | .external topic msg => inferInstanceAs (Decidable (FitsCap s.relay topic msg))
  | .deliverOwn i => inferInstanceAs (Decidable (∀ p ∈ s.sent[i]?, FitsCap s.relay p.topic p.msg))

/-! ### What a publication leaves in the trackers -/

/-- The tracker that cuts the echo of a publication on the topic. -/
def State.guard (s : State) : Topic → EchoTracker
  | .global isStatic => s.outbound isStatic
  | .ns _ isStatic => s.inbound isStatic

/-- Every transform of the publication is in the tracker that cuts its echo. -/
def Recorded (s : State) (p : Publication α) : Prop :=
  ∀ t ∈ p.msg.transforms, entryOf (framePair t) t.stamp ∈ (s.guard p.topic).entries

/-- Every entry of `s` is one of `s'`. -/
structure Grows (s s' : State) : Prop where
  namespaces : s'.namespaces = s.namespaces
  entries : ∀ topic, (s.guard topic).entries ⊆ (s'.guard topic).entries

theorem Grows.refl (s : State) : Grows s s := ⟨rfl, fun _ => Finset.Subset.refl _⟩

theorem Recorded.grows {s s' : State} {p : Publication α} (h : Recorded s p) (hg : Grows s s') :
    Recorded s' p := fun t ht => hg.entries p.topic (h t ht)

/-- Adding keys to one of the two trackers loses no entry of either. -/
theorem entries_subset_addAll {trackers : Bool → EchoTracker} {isStatic : Bool}
    {keys : List ((String × String) × Stamp)} (h : (trackers isStatic).Fits keys) (b : Bool) :
    (trackers b).entries ⊆
      (Function.update trackers isStatic ((trackers isStatic).addAll keys) b).entries := by
  intro k hk
  by_cases hb : b = isStatic
  · subst hb
    rw [Function.update_self, EchoTracker.mem_addAll h]
    exact Or.inl hk
  · rwa [Function.update_of_ne hb]

theorem onGlobalTf_spec (s : State) (msg : TFMessage α) (isStatic : Bool)
    (h : FitsCap s (.global isStatic) msg) :
    Grows s (onGlobalTf s msg isStatic).1 ∧
      ∀ p ∈ (onGlobalTf s msg isStatic).2, Recorded (onGlobalTf s msg isStatic).1 p := by
  unfold onGlobalTf
  dsimp only
  split_ifs with he
  · exact ⟨.refl s, by simp⟩
  · have hmem := EchoTracker.mem_addAll h
    refine ⟨⟨rfl, ?_⟩, ?_⟩
    · rintro (b | ⟨ns, b⟩)
      · exact Finset.Subset.refl _
      · exact entries_subset_addAll h b
    · intro p hp t ht
      obtain ⟨ns, hns, rfl⟩ := List.mem_map.mp hp
      obtain ⟨t', ht', rfl⟩ := List.mem_map.mp ht
      show _ ∈ (Function.update s.inbound isStatic _ isStatic).entries
      rw [Function.update_self, hmem, prefixTransform_stamp]
      refine Or.inr ⟨(framePair (prefixTransform t' ns), t'.stamp), ?_, rfl⟩
      exact List.mem_flatMap.mpr ⟨t', ht', List.mem_map.mpr ⟨ns, hns, rfl⟩⟩

theorem onNsTf_spec (s : State) (msg : TFMessage α) (isStatic : Bool)
    (h : (s.outbound isStatic).Fits (outboundKeys (s.freshNs isStatic msg))) :
    Grows s (onNsTf s msg isStatic).1 ∧
      ∀ p ∈ (onNsTf s msg isStatic).2, Recorded (onNsTf s msg isStatic).1 p := by
  unfold onNsTf
  dsimp only
  split_ifs with he
  · exact ⟨.refl s, by simp⟩
  · have hmem := EchoTracker.mem_addAll h
    refine ⟨⟨rfl, ?_⟩, ?_⟩
    · rintro (b | ⟨ns, b⟩)
      · exact entries_subset_addAll h b
      · exact Finset.Subset.refl _
    · intro p hp t ht
      obtain rfl := List.mem_singleton.mp hp
      show _ ∈ (Function.update s.outbound isStatic _ isStatic).entries
      rw [Function.update_self, hmem]
      exact Or.inr ⟨(framePair t, t.stamp), List.mem_map.mpr ⟨t, ht, rfl⟩, rfl⟩

/-- **Recording lemma**: handling a message within the cap keeps all entries and records what it
publishes. -/
theorem handle_spec (s : State) (topic : Topic) (msg : TFMessage α) (h : FitsCap s topic msg) :
    Grows s (handle s topic msg).1 ∧
      ∀ p ∈ (handle s topic msg).2, Recorded (handle s topic msg).1 p := by
  cases topic with
  | global isStatic => exact onGlobalTf_spec s msg isStatic h
  | ns ns isStatic =>
    rw [handle_ns]
    split_ifs with hns
    · exact onNsTf_spec s msg isStatic (h hns)
    · exact ⟨.refl s, by simp⟩

/-- A message whose transforms are all recorded changes nothing and publishes nothing. -/
theorem handle_recorded {s : State} {p : Publication α} (h : Recorded s p) :
    handle s p.topic p.msg = (s, []) := by
  obtain ⟨topic, msg⟩ := p
  cases topic with
  | global isStatic =>
    have hnil : s.freshGlobal isStatic msg = [] := by
      refine List.filter_eq_nil_iff.mpr fun t ht => ?_
      have hc : (s.outbound isStatic).contains (framePair t) t.stamp = true :=
        EchoTracker.contains_iff.mpr (h t ht)
      simp [hc]
    simp [onGlobalTf, hnil]
  | ns ns isStatic =>
    have hnil : s.freshNs isStatic msg = [] := by
      refine List.filter_eq_nil_iff.mpr fun t ht => ?_
      have hc : (s.inbound isStatic).contains (framePair t) t.stamp = true :=
        EchoTracker.contains_iff.mpr (h t ht)
      simp [hc]
    simp [onNsTf, hnil]

/-! ### Counting -/

/-- The transforms in the publications. -/
def transformCount (ps : List (Publication α)) : ℕ := (ps.map fun p => p.msg.transforms.length).sum

@[simp] theorem transformCount_append (ps qs : List (Publication α)) :
    transformCount (ps ++ qs) = transformCount ps + transformCount qs := by
  simp [transformCount]

/-- The external transforms an event delivers on a global topic. -/
def globalTransforms : Event α → ℕ
  | .external (.global _) msg => msg.transforms.length
  | _ => 0

/-- The external transforms an event delivers on the topic of a namespace of the relay. -/
def nsTransforms (namespaces : List String) : Event α → ℕ
  | .external (.ns ns _) msg => if ns ∈ namespaces then msg.transforms.length else 0
  | _ => 0

def Event.isExternal : Event α → Bool
  | .external _ _ => true
  | .deliverOwn _ => false

theorem onGlobalTf_count (s : State) (msg : TFMessage α) (isStatic : Bool) :
    transformCount (onGlobalTf s msg isStatic).2 ≤ s.namespaces.length * msg.transforms.length ∧
      (onGlobalTf s msg isStatic).2.length ≤ s.namespaces.length := by
  unfold onGlobalTf
  dsimp only
  split_ifs with he
  · simp [transformCount]
  · have hlen : (s.freshGlobal isStatic msg).length ≤ msg.transforms.length :=
      List.length_filter_le _ _
    simp only [transformCount, List.map_map, Function.comp_def, List.length_map, List.map_const',
      List.sum_replicate_nat]
    exact ⟨Nat.mul_le_mul le_rfl hlen, le_rfl⟩

theorem onNsTf_count (s : State) (msg : TFMessage α) (isStatic : Bool) :
    transformCount (onNsTf s msg isStatic).2 ≤ msg.transforms.length ∧
      (onNsTf s msg isStatic).2.length ≤ 1 := by
  unfold onNsTf
  dsimp only
  split_ifs with he
  · simp [transformCount]
  · have hlen : (s.freshNs isStatic msg).length ≤ msg.transforms.length := List.length_filter_le _ _
    simpa [transformCount] using hlen

/-- What an external message makes the relay publish. -/
theorem handle_count (s : State) (topic : Topic) (msg : TFMessage α) :
    transformCount (handle s topic msg).2 ≤
        s.namespaces.length * globalTransforms (.external topic msg) +
          nsTransforms s.namespaces (.external topic msg) ∧
      (handle s topic msg).2.length ≤ s.namespaces.length := by
  cases topic with
  | global isStatic =>
    simpa [globalTransforms, nsTransforms] using onGlobalTf_count s msg isStatic
  | ns ns isStatic =>
    rw [handle_ns]
    split_ifs with hns
    · obtain ⟨hc, hl⟩ := onNsTf_count s msg isStatic
      have hpos : 0 < s.namespaces.length := List.length_pos_of_mem hns
      simp only [globalTransforms, nsTransforms, if_pos hns]
      exact ⟨by omega, by omega⟩
    · simp [transformCount]

/-! ### Runs -/

variable {namespaces : List String}

/-- All publications are recorded. -/
structure EchoFree (namespaces : List String) (s : Net α) : Prop where
  namespaces : s.relay.namespaces = namespaces
  recorded : ∀ p ∈ s.sent, Recorded s.relay p

theorem EchoFree.receive {s : Net α} (h : EchoFree namespaces s) {topic : Topic}
    {msg : TFMessage α} (hfit : FitsCap s.relay topic msg) :
    EchoFree namespaces (s.receive topic msg).1 := by
  obtain ⟨hg, hrec⟩ := handle_spec s.relay topic msg hfit
  refine ⟨hg.namespaces.trans h.namespaces, fun p hp => ?_⟩
  rcases List.mem_append.mp hp with hp | hp
  · exact (h.recorded p hp).grows hg
  · exact hrec p hp

/-- The echo of a recorded publication does nothing. -/
theorem EchoFree.deliverOwn {s : Net α} (h : EchoFree namespaces s) (i : ℕ) :
    s.step (.deliverOwn i) = (s, []) := by
  cases hi : s.sent[i]? with
  | none => simp [Net.step, hi]
  | some p =>
    have hp := handle_recorded (h.recorded p (List.mem_of_getElem? hi))
    simp [Net.step, hi, Net.receive, hp]

theorem EchoFree.step {s : Net α} (h : EchoFree namespaces s) {e : Event α} (hc : WithinCap s e) :
    EchoFree namespaces (s.step e).1 := by
  cases e with
  | external topic msg => exact h.receive hc
  | deliverOwn i =>
    rw [h.deliverOwn]
    exact h

/-- What one step publishes. -/
theorem EchoFree.step_count {s : Net α} (h : EchoFree namespaces s) (e : Event α) :
    transformCount (s.step e).2 ≤
        namespaces.length * globalTransforms e + nsTransforms namespaces e ∧
      (s.step e).2.length ≤ namespaces.length * (if e.isExternal then 1 else 0) := by
  cases e with
  | external topic msg =>
    obtain ⟨hc, hl⟩ := handle_count s.relay topic msg
    rw [h.namespaces] at hc hl
    exact ⟨hc, by simpa [Event.isExternal, Net.step, Net.receive] using hl⟩
  | deliverOwn i => simp [h.deliverOwn, transformCount]

theorem echoFree_after {es : List (Event α)}
    (h : (network α namespaces).Always WithinCap es) :
    EchoFree namespaces ((network α namespaces).after es) :=
  h.invariant (I := fun _ s => EchoFree namespaces s) ⟨rfl, by simp [network]⟩
    fun _ _ ih hc => ih.step hc

/-- **The relay never feeds itself**: in a run within the caps, no publication that comes back
makes the relay publish anything, the transforms it publishes are bounded by the external ones,
and so are its publications. -/
theorem relay_never_feeds_itself (namespaces : List String) (es : List (Event α))
    (h : (network α namespaces).Always WithinCap es) :
    (∀ pre i, pre ++ [.deliverOwn i] <+: es →
      ((network α namespaces).step ((network α namespaces).after pre) (.deliverOwn i)).2 = []) ∧
    transformCount ((network α namespaces).outputs es).flatten ≤
      namespaces.length * (es.map globalTransforms).sum + (es.map (nsTransforms namespaces)).sum ∧
    ((network α namespaces).outputs es).flatten.length ≤
      namespaces.length * es.countP Event.isExternal := by
  refine ⟨fun pre i hp => ?_, ?_⟩
  · have hfree := echoFree_after (h.of_prefix ((List.prefix_append pre _).trans hp))
    rw [network_step, hfree.deliverOwn]
  · induction es using List.reverseRecOn with
    | nil => simp [transformCount]
    | append_singleton es e ih =>
      obtain ⟨hes, -⟩ := (Process.always_concat es e).mp h
      obtain ⟨ihc, ihl⟩ := ih hes
      obtain ⟨hc, hl⟩ := (echoFree_after hes).step_count e
      simp only [Process.outputs_concat, List.flatten_append, List.flatten_cons, List.flatten_nil,
        List.append_nil, transformCount_append, List.length_append, List.map_append, List.map_cons,
        List.map_nil, List.sum_append, List.sum_cons, List.sum_nil, add_zero, network_step,
        List.countP_append, List.countP_singleton, Nat.mul_add]
      exact ⟨by omega, by omega⟩

/-- Odometry relayed into a namespace and a transform relayed out of it, both coming back. -/
def bothWays : List (Event Unit) :=
  [.external (.global false) ⟨[⟨"odom", ⟨7, 0⟩, "base_link", ()⟩]⟩, .deliverOwn 0,
    .external (.ns "rover_0" false) ⟨[⟨"rover_0/map", ⟨7, 0⟩, "rover_0/odom", ()⟩]⟩, .deliverOwn 1]

theorem relay_never_feeds_itself_bothWays :
    transformCount ((network Unit ["rover_0"]).outputs bothWays).flatten = 2 ∧
      transformCount ((network Unit ["rover_0"]).outputs bothWays).flatten ≤
        1 * (bothWays.map globalTransforms).sum + (bothWays.map (nsTransforms ["rover_0"])).sum :=
  ⟨by decide +kernel, (relay_never_feeds_itself ["rover_0"] bothWays (by decide +kernel)).2.1⟩

end RoverSwarm.Relay
