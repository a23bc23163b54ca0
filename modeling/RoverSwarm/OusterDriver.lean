import Mathlib.Tactic.IntervalCases
import RoverSwarm.Lib.Layout
import RoverSwarm.Lib.Circular
import RoverSwarm.Lib.Transition

/-!
# OusterDriver — the packets of a lidar on their way through a ring buffer

One thread reads datagrams from the socket into the slot at the tail and pushes it if the datagram
had the size of a packet; the other lets every processor read the slot at the head and pops it.  The
indices count through the slots twice, so that a full buffer is not taken for an empty one.  The
receiver never waits for a free slot, and `recv` is allowed one byte more than a slot has.
-/

namespace RoverSwarm.OusterDriver

open Transition
open Layout (Place)

/-! ### The ring buffer -/

structure RingBuffer where
  elementSize : ℕ
  numElements : ℕ
  head : ℕ
  tail : ℕ
  buf : List UInt8
deriving DecidableEq

namespace RingBuffer

variable (b : RingBuffer)

def empty : Bool := b.head = b.tail

/-- `full`; the copy of the head is a `bool`. -/
def full : Bool :=
  let head := if b.head = 0 then 0 else 1
  (b.tail * 2) % b.numElements = head && head ≠ b.tail

/-- The slot of an index. -/
def slot (i : ℕ) : Place := ⟨i % b.numElements * b.elementSize, b.elementSize⟩

/-- What stands at `head()`. -/
def front : List UInt8 := Layout.get (b.slot b.head) b.buf

def pop : RingBuffer := { b with head := (b.head + 1) % (b.numElements * 2) }

def push : RingBuffer := { b with tail := (b.tail + 1) % (b.numElements * 2) }

/-- What `recv` takes of a datagram: `len + 1` bytes at most. -/
def taken (datagram : List UInt8) : List UInt8 := datagram.take (b.elementSize + 1)

/-- The place where it is written, up to the end of the buffer. -/
def place (datagram : List UInt8) : Place :=
  ⟨(b.slot b.tail).offset,
    min (b.taken datagram).length (b.buf.length - (b.slot b.tail).offset)⟩

/-- `recv` into the slot at the tail. -/
def recv (datagram : List UInt8) : RingBuffer :=
  { b with
    buf := Layout.put (b.place datagram) ((b.taken datagram).take (b.place datagram).size) b.buf }

/-- Bytes are written behind the end of the buffer. -/
def pastEnd (datagram : List UInt8) : Bool :=
  b.buf.length < (b.slot b.tail).offset + (b.taken datagram).length

/-- How many slots are pushed and not popped. -/
def waiting : ℕ :=
  (b.tail + b.numElements * 2 - b.head) % (b.numElements * 2)

end RingBuffer

/-! ### The two threads -/

/-- Where `receiveData` is. -/
inductive Receiver
  | idle
  /-- `readLidarPacket` returned true. -/
  | got (packet : List UInt8)
deriving DecidableEq

structure State where
  ring : RingBuffer
  receiver : Receiver
  /-- `processData` is between the test for an empty buffer and `pop`. -/
  processing : Bool
deriving DecidableEq

inductive Event
  | recv (datagram : List UInt8)
  | push
  | poll
  /-- The accumulator or one of the processors reads the packet. -/
  | process
  | pop
deriving DecidableEq

inductive Output
  | silent
  | pastEnd
  | pushed (packet : List UInt8) (warned : Bool)
  | processed (packet : List UInt8)
  | popped
deriving DecidableEq

def step (s : State) : Event → Option (State × Output)
  | .recv datagram =>
    match s.receiver with
    | .idle =>
      some ({ s with
          ring := s.ring.recv datagram
          receiver :=
            if (s.ring.taken datagram).length = s.ring.elementSize then .got datagram else .idle },
        if s.ring.pastEnd datagram then .pastEnd else .silent)
    | _ => none
  | .push =>
    match s.receiver with
    | .got packet =>
      some ({ s with ring := s.ring.push, receiver := .idle }, .pushed packet s.ring.full)
    | _ => none
  | .poll =>
    if s.processing then none else some ({ s with processing := !s.ring.empty }, .silent)
  | .process => if s.processing then some (s, .processed s.ring.front) else none
  | .pop =>
    if s.processing then some ({ s with ring := s.ring.pop, processing := false }, .popped)
    else none

/-- `onActivate`; the array is not initialized. -/
def machine (elementSize numElements : ℕ) (memory : ℕ → UInt8) : Machine State Event Output where
  init := ⟨⟨elementSize, numElements, 0, 0,
    (List.range (numElements * elementSize)).map memory⟩, .idle, false⟩
  step := step

/-! ### Slots -/

namespace RingBuffer

variable {b : RingBuffer} {i j : ℕ} {datagram : List UInt8}

theorem slot_within (hn : 0 < b.numElements)
    (hlength : b.buf.length = b.numElements * b.elementSize) (i : ℕ) :
    (b.slot i).stop ≤ b.buf.length := by
  have hle : (i % b.numElements + 1) * b.elementSize ≤ b.numElements * b.elementSize :=
    Nat.mul_le_mul_right _ (Nat.mod_lt i hn)
  rw [Nat.succ_mul] at hle
  unfold slot Place.stop
  dsimp only
  omega

/-- A slot behind another begins where that one ends, or later. -/
theorem stop_slot_le (hlt : i % b.numElements < j % b.numElements) :
    (b.slot i).stop ≤ (b.slot j).offset := by
  have hle : (i % b.numElements + 1) * b.elementSize ≤ j % b.numElements * b.elementSize :=
    Nat.mul_le_mul_right _ hlt
  rw [Nat.succ_mul] at hle
  exact hle

/-- There is room for a whole packet between slots that are not neighbours. -/
theorem stop_slot_lt (hsize : 0 < b.elementSize)
    (hlt : i % b.numElements + 1 < j % b.numElements) :
    (b.slot i).stop < (b.slot j).offset := by
  have hle : (i % b.numElements + 2) * b.elementSize ≤ j % b.numElements * b.elementSize :=
    Nat.mul_le_mul_right _ hlt
  rw [Nat.add_mul] at hle
  unfold slot Place.stop
  dsimp only
  omega

theorem length_taken_le (b : RingBuffer) (datagram : List UInt8) :
    (b.taken datagram).length ≤ b.elementSize + 1 := by
  unfold taken
  rw [List.length_take]
  omega

theorem place_stop_le (b : RingBuffer) (datagram : List UInt8) :
    (b.place datagram).stop ≤ (b.slot b.tail).stop + 1 := by
  have hle := length_taken_le b datagram
  unfold place slot Place.stop
  dsimp only
  omega

theorem place_stop_le_of_short (hshort : datagram.length ≤ b.elementSize) :
    (b.place datagram).stop ≤ (b.slot b.tail).stop := by
  have hle : (b.taken datagram).length ≤ datagram.length := List.length_take_le' _ _
  unfold place slot Place.stop
  dsimp only
  omega

theorem place_within (hn : 0 < b.numElements)
    (hlength : b.buf.length = b.numElements * b.elementSize) (datagram : List UInt8) :
    (b.place datagram).stop ≤ b.buf.length := by
  have hle := slot_within hn hlength b.tail
  unfold Place.stop at hle ⊢
  unfold place
  dsimp only
  omega

theorem length_written (datagram : List UInt8) :
    ((b.taken datagram).take (b.place datagram).size).length = (b.place datagram).size := by
  unfold place
  rw [List.length_take]
  dsimp only
  omega

theorem length_recv (hn : 0 < b.numElements)
    (hlength : b.buf.length = b.numElements * b.elementSize) (datagram : List UInt8) :
    (b.recv datagram).buf.length = b.buf.length :=
  Layout.length_put (place_within hn hlength datagram) (length_written datagram)

/-- A slot keeps its bytes, unless it is the one at the tail or the datagram is too long and it is
the next one. -/
theorem get_slot_recv (hsize : 0 < b.elementSize) (hn : 0 < b.numElements)
    (hlength : b.buf.length = b.numElements * b.elementSize)
    (htail : i % b.numElements ≠ b.tail % b.numElements)
    (hnext : b.elementSize < datagram.length →
      i % b.numElements ≠ (b.tail + 1) % b.numElements) :
    Layout.get (b.slot i) (b.recv datagram).buf = Layout.get (b.slot i) b.buf := by
  refine Layout.get_put_of_apart ?_ (place_within hn hlength datagram) (length_written datagram)
  rcases Nat.lt_or_gt_of_ne htail with hlt | hgt
  · exact Or.inl (stop_slot_le hlt)
  · refine Or.inr ?_
    rcases Nat.lt_or_ge b.elementSize datagram.length with hlong | hshort
    · have hne := hnext hlong
      have hi : i % b.numElements < b.numElements := Nat.mod_lt i hn
      have hsucc : (b.tail + 1) % b.numElements = b.tail % b.numElements + 1 := by
        rw [← Nat.mod_add_mod]
        exact Nat.mod_eq_of_lt (by omega)
      have hlt := stop_slot_lt hsize (b := b) (i := b.tail) (j := i) (by omega)
      have hle := place_stop_le b datagram
      omega
    · exact (place_stop_le_of_short hshort).trans (stop_slot_le hgt)

/-- A datagram of the size of a packet fills the slot at the tail. -/
theorem get_tail_recv (hn : 0 < b.numElements)
    (hlength : b.buf.length = b.numElements * b.elementSize)
    (hpacket : datagram.length = b.elementSize) :
    Layout.get (b.slot b.tail) (b.recv datagram).buf = datagram := by
  have hwithin := slot_within hn hlength b.tail
  have htaken : b.taken datagram = datagram := List.take_of_length_le (by omega)
  have hplace : b.place datagram = b.slot b.tail := by
    unfold Place.stop at hwithin
    unfold place
    rw [htaken, hpacket]
    unfold slot at hwithin ⊢
    dsimp only at hwithin ⊢
    rw [Nat.min_eq_left (by omega)]
  have hwritten : (b.taken datagram).take (b.place datagram).size = datagram := by
    rw [htaken, hplace]
    exact List.take_of_length_le hpacket.le
  unfold recv
  rw [hwritten, hplace]
  exact Layout.get_put_self hwithin hpacket

theorem pastEnd_eq_false (hn : 0 < b.numElements)
    (hlength : b.buf.length = b.numElements * b.elementSize)
    (hshort : datagram.length ≤ b.elementSize) : b.pastEnd datagram = false := by
  have hwithin := slot_within hn hlength b.tail
  have hle : (b.taken datagram).length ≤ datagram.length := List.length_take_le' _ _
  unfold pastEnd
  unfold Place.stop at hwithin
  rw [decide_eq_false_iff_not]
  unfold slot at hwithin ⊢
  dsimp only at hwithin ⊢
  omega

end RingBuffer

/-! ### What goes in and what comes out -/

abbrev Trace := List (Event × Output)

def Output.packet : Output → Option (List UInt8)
  | .pushed packet _ => some packet
  | _ => none

/-- The packets that were pushed, in order. -/
def received (tr : Trace) : List (List UInt8) := tr.filterMap fun x => x.2.packet

/-- How many packets were popped. -/
def popped (tr : Trace) : ℕ := tr.countP fun x => x.2 = .popped

theorem received_concat (tr : Trace) (e : Event) (o : Output) :
    received (tr ++ [(e, o)]) = received tr ++ o.packet.toList := by
  unfold received
  rw [List.filterMap_append]
  cases h : o.packet <;> simp [h]

theorem popped_concat (tr : Trace) (e : Event) (o : Output) :
    popped (tr ++ [(e, o)]) = popped tr + if o = .popped then 1 else 0 := by
  unfold popped
  rw [List.countP_append, List.countP_singleton]
  simp

/-- There is a free slot for a datagram, and another if it is longer than a packet. -/
def Room (s : State) : Event → Prop
  | .recv datagram =>
    s.ring.waiting + (if datagram.length ≤ s.ring.elementSize then 1 else 2) ≤ s.ring.numElements
  | _ => True

instance (s : State) (e : Event) : Decidable (Room s e) := by
  cases e <;> unfold Room <;> infer_instance

/-- The state after the packets `rcv` were pushed and `n` of them popped. -/
structure Inv (elementSize numElements : ℕ) (rcv : List (List UInt8)) (n : ℕ) (s : State) :
    Prop where
  elementSize_eq : s.ring.elementSize = elementSize
  numElements_eq : s.ring.numElements = numElements
  length : s.ring.buf.length = numElements * elementSize
  head : s.ring.head = n % (numElements * 2)
  tail : s.ring.tail = rcv.length % (numElements * 2)
  le : n ≤ rcv.length
  room : rcv.length + (if s.receiver = .idle then 0 else 1) ≤ n + numElements
  slots : ∀ i, n ≤ i → i < rcv.length → rcv[i]? = some (Layout.get (s.ring.slot i) s.ring.buf)
  receiver : ∀ packet, s.receiver = .got packet →
    Layout.get (s.ring.slot rcv.length) s.ring.buf = packet
  processing : s.processing = true → n < rcv.length

section Invariant

variable {elementSize numElements n : ℕ} {rcv : List (List UInt8)} {s s' : State} {o : Output}

theorem slot_mod (b : RingBuffer) (i : ℕ) : b.slot (i % (b.numElements * 2)) = b.slot i := by
  unfold RingBuffer.slot
  rw [Nat.mod_mod_of_dvd _ (Nat.dvd_mul_right _ _)]

theorem Inv.waiting_eq (h : Inv elementSize numElements rcv n s) (hn : 0 < numElements) :
    s.ring.waiting = rcv.length - n := by
  have hroom := h.room
  unfold RingBuffer.waiting
  rw [h.head, h.tail, h.numElements_eq]
  exact Circular.count_mod h.le (by split_ifs at hroom <;> omega)

theorem Inv.empty_iff (h : Inv elementSize numElements rcv n s) (hn : 0 < numElements) :
    s.ring.empty = true ↔ n = rcv.length := by
  have hroom := h.room
  have hle := h.le
  unfold RingBuffer.empty
  rw [decide_eq_true_eq, h.head, h.tail]
  refine ⟨fun heq => ?_, fun heq => by rw [heq]⟩
  by_contra hne
  exact Circular.mod_ne_mod (by omega) (by split_ifs at hroom <;> omega) heq

theorem Inv.recv (h : Inv elementSize numElements rcv n s) (hsize : 0 < elementSize)
    (hn : 0 < numElements) {datagram : List UInt8} (hfits : Room s (.recv datagram))
    (hs : step s (.recv datagram) = some (s', o)) :
    o.packet = none ∧ o ≠ .popped ∧ Inv elementSize numElements rcv n s' := by
  unfold step at hs
  cases hr : s.receiver with
  | got packet =>
    rw [hr] at hs
    cases hs
  | idle =>
    rw [hr] at hs
    cases hs
    unfold Room at hfits
    dsimp only at hfits
    rw [h.waiting_eq hn, h.elementSize_eq, h.numElements_eq] at hfits
    have hlength : s.ring.buf.length = s.ring.numElements * s.ring.elementSize := by
      rw [h.length, h.numElements_eq, h.elementSize_eq]
    have hn' : 0 < s.ring.numElements := by rwa [h.numElements_eq]
    have hsize' : 0 < s.ring.elementSize := by rwa [h.elementSize_eq]
    have hle := h.le
    have htail : ∀ k, (s.ring.tail + k) % s.ring.numElements =
        (rcv.length + k) % s.ring.numElements := by
      intro k
      rw [h.tail, ← Nat.mod_add_mod, Nat.mod_mod_of_dvd _ (h.numElements_eq ▸ Nat.dvd_mul_right _ _),
        Nat.mod_add_mod]
    refine ⟨by split_ifs <;> rfl, by split_ifs <;> decide, { h with
      length := ?_
      room := ?_
      slots := ?_
      receiver := ?_ }⟩
    · exact (RingBuffer.length_recv hn' hlength datagram).trans h.length
    · split_ifs at hfits <;> split_ifs <;> omega
    · intro i hni hi
      rw [h.slots i hni hi]
      refine congrArg some (RingBuffer.get_slot_recv hsize' hn' hlength ?_ fun hlong => ?_).symm
      · rw [← Nat.add_zero s.ring.tail, htail 0]
        exact Circular.mod_ne_mod hi (by split_ifs at hfits <;> rw [h.numElements_eq] <;> omega)
      · rw [htail 1]
        rw [h.elementSize_eq] at hlong
        rw [if_neg (by omega)] at hfits
        exact Circular.mod_ne_mod (by omega) (by rw [h.numElements_eq]; omega)
    · intro packet hpacket
      dsimp only at hpacket
      split_ifs at hpacket with htaken
      cases hpacket
      have hsame : (s.ring.recv datagram).slot rcv.length = s.ring.slot s.ring.tail := by
        rw [h.tail, ← h.numElements_eq, slot_mod]
        rfl
      unfold RingBuffer.taken at htaken
      rw [List.length_take] at htaken
      dsimp only
      rw [hsame]
      exact RingBuffer.get_tail_recv hn' hlength (by omega)

theorem Inv.push (h : Inv elementSize numElements rcv n s) (hs : step s .push = some (s', o)) :
    ∃ packet, o.packet = some packet ∧ o ≠ .popped ∧
      Inv elementSize numElements (rcv ++ [packet]) n s' := by
  unfold step at hs
  cases hr : s.receiver with
  | idle =>
    rw [hr] at hs
    cases hs
  | got packet =>
    rw [hr] at hs
    cases hs
    have hroom := h.room
    have hle := h.le
    have hlength : (rcv ++ [packet]).length = rcv.length + 1 := by
      rw [List.length_append, List.length_singleton]
    rw [hr, if_neg (by simp)] at hroom
    refine ⟨packet, rfl, by simp, { h with
      tail := ?_
      le := by omega
      room := ?_
      slots := ?_
      receiver := ?_
      processing := ?_ }⟩
    · show (s.ring.tail + 1) % (s.ring.numElements * 2) = _
      rw [h.tail, h.numElements_eq, Nat.mod_add_mod, hlength]
    · rw [hlength, if_pos rfl]
      omega
    · intro i hni hi
      rw [hlength] at hi
      rcases Nat.lt_or_ge i rcv.length with hold | hnew
      · rw [List.getElem?_append_left hold]
        exact h.slots i hni hold
      · obtain rfl : i = rcv.length := by omega
        rw [List.getElem?_concat_length]
        exact congrArg some (h.receiver packet hr).symm
    · intro packet' hpacket'
      cases hpacket'
    · intro hprocessing
      have hlt := h.processing hprocessing
      omega

theorem Inv.poll (h : Inv elementSize numElements rcv n s) (hn : 0 < numElements)
    (hs : step s .poll = some (s', o)) :
    o = .silent ∧ Inv elementSize numElements rcv n s' := by
  unfold step at hs
  dsimp only at hs
  split_ifs at hs with hprocessing
  cases hs
  refine ⟨rfl, { h with processing := fun hnonempty => ?_ }⟩
  have hempty := h.empty_iff hn
  have hle := h.le
  rw [Bool.not_eq_true'] at hnonempty
  rw [hnonempty] at hempty
  have hne : n ≠ rcv.length := fun heq => absurd (hempty.mpr heq) (by decide)
  omega

/-- The packet at the head is the one that waits longest. -/
theorem Inv.process (h : Inv elementSize numElements rcv n s)
    (hs : step s .process = some (s', o)) :
    s' = s ∧ ∃ packet, o = .processed packet ∧ rcv[n]? = some packet := by
  unfold step at hs
  dsimp only at hs
  split_ifs at hs with hprocessing
  cases hs
  have hslot : s.ring.slot s.ring.head = s.ring.slot n := by
    rw [h.head, ← h.numElements_eq, slot_mod]
  refine ⟨rfl, s.ring.front, rfl, ?_⟩
  unfold RingBuffer.front
  rw [h.slots n (Nat.le_refl n) (h.processing hprocessing), hslot]

theorem Inv.pop (h : Inv elementSize numElements rcv n s) (hs : step s .pop = some (s', o)) :
    o = .popped ∧ Inv elementSize numElements rcv (n + 1) s' := by
  unfold step at hs
  dsimp only at hs
  split_ifs at hs with hprocessing
  cases hs
  have hroom := h.room
  refine ⟨rfl, { h with
    head := ?_
    le := h.processing hprocessing
    room := ?_
    slots := fun i hni hi => h.slots i (by omega) hi
    processing := fun hfalse => by cases hfalse }⟩
  · show (s.ring.head + 1) % (s.ring.numElements * 2) = _
    rw [h.head, h.numElements_eq, Nat.mod_add_mod]
  · dsimp only
    omega

theorem Inv.step (h : Inv elementSize numElements rcv n s) (hsize : 0 < elementSize)
    (hn : 0 < numElements) {e : Event} (hfits : Room s e) (hs : step s e = some (s', o)) :
    Inv elementSize numElements (rcv ++ o.packet.toList) (n + if o = .popped then 1 else 0) s' := by
  cases e with
  | recv datagram =>
    obtain ⟨hpacket, hpopped, h'⟩ := h.recv hsize hn hfits hs
    simpa [hpacket, hpopped] using h'
  | push =>
    obtain ⟨packet, hpacket, hpopped, h'⟩ := h.push hs
    simpa [hpacket, hpopped] using h'
  | poll =>
    obtain ⟨rfl, h'⟩ := h.poll hn hs
    simpa [Output.packet] using h'
  | process =>
    obtain ⟨rfl, packet, rfl, -⟩ := h.process hs
    simpa [Output.packet] using h
  | pop =>
    obtain ⟨rfl, h'⟩ := h.pop hs
    simpa [Output.packet] using h'

end Invariant

/-! ### Runs -/

section Runs

variable {elementSize numElements : ℕ} {memory : ℕ → UInt8} {tr : Trace} {s : State}

theorem inv_of_run (hsize : 0 < elementSize) (hn : 0 < numElements)
    (h : (machine elementSize numElements memory).Run Room tr s) :
    Inv elementSize numElements (received tr) (popped tr) s := by
  refine Machine.Run.invariant (I := fun tr s =>
    Inv elementSize numElements (received tr) (popped tr) s) ?_ ?_ h
  · refine ⟨rfl, rfl, ?_, (Nat.zero_mod _).symm, (Nat.zero_mod _).symm, Nat.le_refl _,
      Nat.zero_le _, ?_, ?_, ?_⟩
    · show ((List.range _).map memory).length = _
      rw [List.length_map, List.length_range]
    · intro i _ hi
      exact absurd hi (Nat.not_lt_zero i)
    · intro packet hpacket
      cases hpacket
    · intro hprocessing
      cases hprocessing
  · intro tr s e s' o _ hinv hfits hs
    rw [received_concat, popped_concat]
    exact hinv.step hsize hn hfits hs

/-- **As long as there is room, no packet is lost, damaged or processed twice.**  In a run in which
every datagram meets a free slot, and two of them if it is longer than a packet, whatever is read at
the head is the packet that was pushed with the number of the pops before, and only a datagram that
is longer than a packet is written behind the end of the buffer. -/
theorem processed_received (hsize : 0 < elementSize) (hn : 0 < numElements)
    (h : (machine elementSize numElements memory).Run Room tr s) :
    popped tr ≤ (received tr).length ∧
      (∀ pre packet, pre ++ [(.process, .processed packet)] <+: tr →
        (received pre)[popped pre]? = some packet) ∧
      ∀ pre datagram, pre ++ [(.recv datagram, .pastEnd)] <+: tr →
        elementSize < datagram.length := by
  refine ⟨(inv_of_run hsize hn h).le, fun pre packet hp => ?_, fun pre datagram hp => ?_⟩
  · obtain ⟨s₁, hrun⟩ := h.of_prefix hp
    obtain ⟨s₀, hpre, -, hs⟩ := hrun.last_step
    obtain ⟨-, packet', hpacket', hget⟩ := (inv_of_run hsize hn hpre).process hs
    cases hpacket'
    exact hget
  · obtain ⟨s₁, hrun⟩ := h.of_prefix hp
    obtain ⟨s₀, hpre, -, hs⟩ := hrun.last_step
    have hinv := inv_of_run hsize hn hpre
    by_contra hlong
    have hshort : s₀.ring.pastEnd datagram = false := by
      refine RingBuffer.pastEnd_eq_false ?_ ?_ ?_
      · rwa [hinv.numElements_eq]
      · rw [hinv.length, hinv.numElements_eq, hinv.elementSize_eq]
      · rw [hinv.elementSize_eq]
        omega
    have hs' : step s₀ (.recv datagram) = some (s₁, .pastEnd) := hs
    unfold step at hs'
    cases hr : s₀.receiver with
    | idle =>
      rw [hr] at hs'
      have hout := congrArg Prod.snd (Option.some.inj hs')
      dsimp only at hout
      rw [hshort] at hout
      cases hout
    | got packet =>
      rw [hr] at hs'
      cases hs'

/-- Two slots of two bytes, and a packet that comes while another is processed. -/
def keepsUp : List Event :=
  [.recv [1, 2], .push, .poll, .recv [3, 4], .process, .push, .process, .pop, .poll, .recv [5],
    .process, .pop]

theorem processed_received_keepsUp : ∃ tr s, (machine 2 2 fun _ => 0).Run Room tr s ∧
    received tr = [[1, 2], [3, 4]] ∧ popped tr = 2 ∧ popped tr ≤ (received tr).length := by
  obtain ⟨tr, s, hrun, hreceived, hpopped⟩ := Machine.exists_run_of_exec
    (M := machine 2 2 fun _ => 0) (C := Room)
    (p := fun r => received r.1 = [[1, 2], [3, 4]] ∧ popped r.1 = 2) keepsUp (by decide) (by decide)
  exact ⟨tr, s, hrun, hreceived, hpopped,
    (processed_received (by decide) (by decide) hrun).1⟩

/-! ### The warning -/

theorem indices_lt (hn : 0 < numElements)
    (h : (machine elementSize numElements memory).Reaches tr s) :
    s.ring.numElements = numElements ∧ s.ring.head < numElements * 2 ∧
      s.ring.tail < numElements * 2 := by
  refine Machine.Run.invariant (I := fun _ s => s.ring.numElements = numElements ∧
    s.ring.head < numElements * 2 ∧ s.ring.tail < numElements * 2) ?_ ?_ h
  · exact ⟨rfl, Nat.mul_pos hn (by omega), Nat.mul_pos hn (by omega)⟩
  · rintro tr s e s' o - ⟨hnum, hhead, htail⟩ - hs
    have hs : step s e = some (s', o) := hs
    have hpos : 0 < s.ring.numElements * 2 := by omega
    unfold step at hs
    cases e with
    | recv datagram =>
      cases hr : s.receiver with
      | idle =>
        rw [hr] at hs
        cases hs
        exact ⟨hnum, hhead, htail⟩
      | got packet =>
        rw [hr] at hs
        cases hs
    | push =>
      cases hr : s.receiver with
      | idle =>
        rw [hr] at hs
        cases hs
      | got packet =>
        rw [hr] at hs
        cases hs
        exact ⟨hnum, hhead, hnum ▸ Nat.mod_lt _ hpos⟩
    | poll =>
      dsimp only at hs
      split_ifs at hs
      cases hs
      exact ⟨hnum, hhead, htail⟩
    | process =>
      dsimp only at hs
      split_ifs at hs
      cases hs
      exact ⟨hnum, hhead, htail⟩
    | pop =>
      dsimp only at hs
      split_ifs at hs
      cases hs
      exact ⟨hnum, hnum ▸ Nat.mod_lt _ hpos, htail⟩

/-- With an even number of slots, `full` is true in three positions of the tail, and only when the
head has come round to the first slot. -/
theorem full_iff {b : RingBuffer} {m : ℕ} (hn : b.numElements = 2 * m) (hm : 0 < m)
    (htail : b.tail < b.numElements * 2) :
    b.full = true ↔ b.head = 0 ∧ (b.tail = m ∨ b.tail = 2 * m ∨ b.tail = 3 * m) := by
  unfold RingBuffer.full
  dsimp only
  rw [hn, Nat.mul_comm b.tail 2, Nat.mul_mod_mul_left, Bool.and_eq_true, decide_eq_true_eq,
    decide_eq_true_eq]
  by_cases hhead : b.head = 0
  · rw [if_pos hhead]
    constructor
    · rintro ⟨hmod, hne⟩
      obtain ⟨c, hc⟩ := Nat.dvd_of_mod_eq_zero (by omega : b.tail % m = 0)
      have hlt : m * c < m * 4 := by omega
      have hc4 : c < 4 := Nat.lt_of_mul_lt_mul_left hlt
      refine ⟨hhead, ?_⟩
      interval_cases c <;> omega
    · rintro ⟨-, htail | htail | htail⟩
      · exact ⟨by rw [htail, Nat.mod_self], by omega⟩
      · exact ⟨by rw [htail, Nat.mul_mod_left], by omega⟩
      · exact ⟨by rw [htail, Nat.mul_mod_left], by omega⟩
  · rw [if_neg hhead]
    refine iff_of_false (fun h => ?_) fun h => hhead h.1
    -- twice the tail leaves an even rest
    omega

/-- **When the overrun is told.**  `full`, which decides on the warning, agrees with the number of
packets that wait exactly if a full buffer has its head at the first index, and a buffer whose head
is there holds neither half as many packets as it has slots nor one and a half times as many. -/
theorem full_correct_iff {m : ℕ} (hm : 0 < m)
    (h : (machine elementSize (2 * m) memory).Reaches tr s) :
    (s.ring.full = true ↔ s.ring.waiting = s.ring.numElements) ↔
      (s.ring.waiting = s.ring.numElements → s.ring.head = 0) ∧
        (s.ring.head = 0 → s.ring.tail ≠ m ∧ s.ring.tail ≠ 3 * m) := by
  obtain ⟨hn, hhead, htail⟩ := indices_lt (by omega) h
  rw [full_iff hn hm (by rwa [hn])]
  by_cases hzero : s.ring.head = 0
  · have hwaiting : s.ring.waiting = s.ring.tail := by
      unfold RingBuffer.waiting
      rw [hzero, hn, Nat.sub_zero, Nat.add_mod_right, Nat.mod_eq_of_lt htail]
    rw [hwaiting, hn]
    constructor
    · intro hiff
      refine ⟨fun _ => hzero, fun _ => ⟨fun hquarter => ?_, fun hquarter => ?_⟩⟩
      · have heq := hiff.mp ⟨hzero, Or.inl hquarter⟩
        omega
      · have heq := hiff.mp ⟨hzero, Or.inr (Or.inr hquarter)⟩
        omega
    · rintro ⟨-, hquarters⟩
      obtain ⟨hne, hne'⟩ := hquarters hzero
      exact ⟨fun hfull => by omega, fun heq => ⟨hzero, Or.inr (Or.inl heq)⟩⟩
  · constructor
    · intro hiff
      exact ⟨fun heq => absurd (hiff.mpr heq).1 hzero, fun h0 => absurd h0 hzero⟩
    · rintro ⟨hfull, -⟩
      exact ⟨fun h0 => absurd h0.1 hzero, fun heq => absurd (hfull heq) hzero⟩

/-- A buffer of two slots is called full with one packet in it. -/
theorem full_correct_iff_halfFull : ∃ tr s, (machine 2 2 fun _ => 0).Reaches tr s ∧
    s.ring.waiting = 1 ∧ ¬ (s.ring.full = true ↔ s.ring.waiting = s.ring.numElements) := by
  obtain ⟨tr, s, hreach, hwaiting, hhead, htail⟩ := Machine.exists_reaches_of_exec
    (M := machine 2 2 fun _ => 0)
    (p := fun r => r.2.ring.waiting = 1 ∧ r.2.ring.head = 0 ∧ r.2.ring.tail = 1)
    [.recv [1, 2], .push] (by decide)
  refine ⟨tr, s, hreach, hwaiting, fun hiff => ?_⟩
  have hquarters := (full_correct_iff (m := 1) (by decide) hreach).mp hiff
  exact (hquarters.2 hhead).1 htail

end Runs

end RoverSwarm.OusterDriver
