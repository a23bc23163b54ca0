import Mathlib.Algebra.Ring.Nat
import Mathlib.Data.List.Infix
import RoverSwarm.Lib.Circular
import RoverSwarm.Lib.Transition

/-!
# LivoxDriver — the queue between the SDK and the publisher

The thread of the SDK stores the packets of a lidar in a `LidarDataQueue`, and the thread that
publishes takes them out.  There is no lock: each of them writes one of the two indices and reads
both.  The indices run freely through `uint32_t`, and `mask` cuts a slot out of them.
-/

namespace RoverSwarm.LivoxDriver

open Transition

variable {P : Type}

/-! ### The queue -/

/-- What is stored of a packet; `points_num` is the length of `points`. -/
structure StoragePacket (P : Type) where
  baseTime : UInt64
  points : List P
deriving DecidableEq

structure LidarDataQueue (P : Type) where
  storagePacket : List (StoragePacket P)
  rdIdx : UInt32
  wrIdx : UInt32
  mask : UInt32
  size : UInt32

def isPowerOf2 (size : UInt32) : Bool := size ≠ 0 && size &&& (size - 1) = 0

/-- The loop of `RoundupPowerOf2`, with `fuel` passes left from `i` on. -/
def roundupFrom (size : UInt32) : ℕ → ℕ → UInt32
  | 0, i => 1 <<< UInt32.ofNat i
  | fuel + 1, i =>
    if size ≤ 1 <<< UInt32.ofNat i then 1 <<< UInt32.ofNat i else roundupFrom size fuel (i + 1)

/-- `RoundupPowerOf2`; the value of the last pass stands in any case. -/
def roundupPowerOf2 (size : UInt32) : UInt32 := roundupFrom size 31 0

def realSize (queueSize : UInt32) : UInt32 :=
  if isPowerOf2 queueSize then queueSize else roundupPowerOf2 queueSize

def initQueue (queueSize : UInt32) : LidarDataQueue P where
  storagePacket := List.replicate (realSize queueSize).toNat ⟨0, []⟩
  rdIdx := 0
  wrIdx := 0
  mask := realSize queueSize - 1
  size := realSize queueSize

def queueIsFull (queue : LidarDataQueue P) : Bool := queue.wrIdx - queue.rdIdx > queue.mask

def queueIsEmpty (queue : LidarDataQueue P) : Bool := queue.rdIdx = queue.wrIdx

/-- `QueuePushAny`, up to the index. -/
def store (queue : LidarDataQueue P) (packet : StoragePacket P) : LidarDataQueue P :=
  { queue with
    storagePacket := queue.storagePacket.set (queue.wrIdx &&& queue.mask).toNat packet }

/-- `QueuePrePop`; `none` if the queue is empty. -/
def queuePrePop (queue : LidarDataQueue P) : Option (StoragePacket P) :=
  if queueIsEmpty queue then none else queue.storagePacket[(queue.rdIdx &&& queue.mask).toNat]?

/-- `QueuePopUpdate`. -/
def queuePopUpdate (queue : LidarDataQueue P) : LidarDataQueue P :=
  { queue with rdIdx := queue.rdIdx + 1 }

/-! ### The two threads -/

/-- Where the thread is that runs `PushLidarData`. -/
inductive Producer (P : Type)
  | idle
  /-- The queue was not full. -/
  | checked (packet : StoragePacket P)
  /-- The packet is in its slot. -/
  | stored
deriving DecidableEq

/-- Where the thread is that runs `PublishPointcloud2` or `PublishCustomPointcloud`. -/
inductive Consumer (P : Type)
  | idle
  /-- The queue was not empty. -/
  | polled
  /-- The packet is copied. -/
  | copied (packet : StoragePacket P)
deriving DecidableEq

structure State (P : Type) where
  queue : LidarDataQueue P
  producer : Producer P
  consumer : Consumer P

inductive Event (P : Type)
  | arrive (packet : StoragePacket P)
  | store
  | advance
  | poll
  | copy
  | release
deriving DecidableEq

inductive Output (P : Type)
  | silent
  | accepted (packet : StoragePacket P)
  | dropped (packet : StoragePacket P)
  | published (packet : StoragePacket P)
  /-- A packet without points, which is taken out and not published. -/
  | skipped (packet : StoragePacket P)
deriving DecidableEq

/-- One step of one of the threads; `none` if the thread is not there. -/
def step (s : State P) : Event P → Option (State P × Output P)
  | .arrive packet =>
    match s.producer with
    | .idle =>
      if queueIsFull s.queue then some (s, .dropped packet)
      else some ({ s with producer := .checked packet }, .accepted packet)
    | _ => none
  | .store =>
    match s.producer with
    | .checked packet => some ({ s with queue := store s.queue packet, producer := .stored }, .silent)
    | _ => none
  | .advance =>
    match s.producer with
    | .stored =>
      some ({ s with queue := { s.queue with wrIdx := s.queue.wrIdx + 1 }, producer := .idle }, .silent)
    | _ => none
  | .poll =>
    match s.consumer with
    | .idle =>
      if queueIsEmpty s.queue then some (s, .silent) else some ({ s with consumer := .polled }, .silent)
    | _ => none
  | .copy =>
    match s.consumer with
    | .polled =>
      match queuePrePop s.queue with
      | some packet => some ({ s with consumer := .copied packet }, .silent)
      -- the result of `QueuePop` is not looked at, and the packet has no points
      | none => some ({ s with consumer := .idle }, .silent)
    | _ => none
  | .release =>
    match s.consumer with
    | .copied packet =>
      some ({ s with queue := queuePopUpdate s.queue, consumer := .idle },
        if packet.points.isEmpty then .skipped packet else .published packet)
    | _ => none

def machine (P : Type) (queueSize : UInt32) : Machine (State P) (Event P) (Output P) where
  init := ⟨initQueue queueSize, .idle, .idle⟩
  step := step

/-! ### What goes in and what comes out -/

abbrev Trace (P : Type) := List (Event P × Output P)

/-- The packet that found room. -/
def Output.room : Output P → Option (StoragePacket P)
  | .accepted packet => some packet
  | _ => none

/-- The packet that was taken out. -/
def Output.out : Output P → Option (StoragePacket P)
  | .published packet => some packet
  | .skipped packet => some packet
  | _ => none

def accepted (tr : Trace P) : List (StoragePacket P) := tr.filterMap fun x => x.2.room

def taken (tr : Trace P) : List (StoragePacket P) := tr.filterMap fun x => x.2.out

theorem accepted_concat (tr : Trace P) (e : Event P) (o : Output P) :
    accepted (tr ++ [(e, o)]) = accepted tr ++ o.room.toList := by
  unfold accepted
  rw [List.filterMap_append]
  cases h : o.room <;> simp [h]

theorem taken_concat (tr : Trace P) (e : Event P) (o : Output P) :
    taken (tr ++ [(e, o)]) = taken tr ++ o.out.toList := by
  unfold taken
  rw [List.filterMap_append]
  cases h : o.out <;> simp [h]

/-! ### Sizes -/

section Sizes

variable {size : UInt32}

theorem toNat_shift {i : ℕ} (hi : i < 32) : ((1 : UInt32) <<< UInt32.ofNat i).toNat = 2 ^ i := by
  have hpow : 2 ^ i < 2 ^ 32 := Nat.pow_lt_pow_right (by omega) hi
  have hone : (1 : UInt32).toNat = 1 := rfl
  rw [UInt32.toNat_shiftLeft, UInt32.toNat_ofNat', Nat.mod_eq_of_lt (a := i) (by omega),
    Nat.mod_eq_of_lt hi, Nat.shiftLeft_eq, hone, Nat.one_mul, Nat.mod_eq_of_lt hpow]

/-- The loop stops at the first power that is large enough, or at the last one. -/
theorem roundupFrom_spec (size : UInt32) {fuel i : ℕ} (hi : i + fuel = 31) :
    ∃ k < 32, (roundupFrom size fuel i).toNat = 2 ^ k ∧
      (∀ j, i ≤ j → j < k → 2 ^ j < size.toNat) ∧ (size.toNat ≤ 2 ^ k ∨ k = 31) := by
  induction fuel generalizing i with
  | zero =>
    obtain rfl : i = 31 := by omega
    exact ⟨31, by omega, toNat_shift (by omega), fun j hj hlt => by omega, Or.inr rfl⟩
  | succ fuel ih =>
    rw [roundupFrom]
    split_ifs with hle
    · rw [UInt32.le_iff_toNat_le, toNat_shift (by omega)] at hle
      exact ⟨i, by omega, toNat_shift (by omega), fun j hj hlt => by omega, Or.inl hle⟩
    · rw [UInt32.le_iff_toNat_le, toNat_shift (by omega), Nat.not_le] at hle
      obtain ⟨k, hk, hval, hsmall, hlarge⟩ := ih (by omega : i + 1 + fuel = 31)
      refine ⟨k, hk, hval, fun j hj hlt => ?_, hlarge⟩
      rcases Nat.eq_or_lt_of_le hj with rfl | hj
      · exact hle
      · exact hsmall j hj hlt

theorem exists_pow_of_isPowerOf2 (h : isPowerOf2 size = true) : ∃ k < 32, size.toNat = 2 ^ k := by
  unfold isPowerOf2 at h
  rw [Bool.and_eq_true, decide_eq_true_eq, decide_eq_true_eq] at h
  obtain ⟨hne, hand⟩ := h
  have hpos : size.toNat ≠ 0 := fun hzero => hne (UInt32.toNat_inj.mp hzero)
  have hone : (1 : UInt32) ≤ size := by
    rw [UInt32.le_iff_toNat_le]
    exact Nat.one_le_iff_ne_zero.mpr hpos
  have hnat : size.toNat &&& (size.toNat - 1) = 0 := by
    have hzero := congrArg UInt32.toNat hand
    rwa [UInt32.toNat_and, UInt32.toNat_sub_of_le _ _ hone] at hzero
  obtain ⟨k, hk⟩ := (Nat.and_sub_one_eq_zero_iff_isPowerOfTwo hpos).mp hnat
  refine ⟨k, ?_, hk⟩
  by_contra hge
  have hpow : 2 ^ 32 ≤ 2 ^ k := Nat.pow_le_pow_right (by omega) (by omega)
  have hlt := size.toNat_lt
  omega

/-- **The size of a queue** is the least power of two that is not below the size that was asked for,
and `2 ^ 31` if there is none. -/
theorem realSize_spec (queueSize : UInt32) :
    ∃ k < 32, (realSize queueSize).toNat = 2 ^ k ∧ (∀ j < k, 2 ^ j < queueSize.toNat) ∧
      (queueSize.toNat ≤ 2 ^ k ∨ k = 31) := by
  unfold realSize
  split_ifs with hpower
  · obtain ⟨k, hk, hsize⟩ := exists_pow_of_isPowerOf2 hpower
    refine ⟨k, hk, hsize, fun j hj => ?_, Or.inl hsize.le⟩
    rw [hsize]
    exact Nat.pow_lt_pow_right (by omega) hj
  · obtain ⟨k, hk, hval, hsmall, hlarge⟩ :=
      roundupFrom_spec queueSize (by omega : 0 + 31 = 31)
    exact ⟨k, hk, hval, fun j hj => hsmall j (Nat.zero_le j) hj, hlarge⟩

end Sizes

/-! ### Indices -/

section Indices

variable {k i r w : ℕ} {mask : UInt32}

theorem toNat_and_mask (hmask : mask.toNat = 2 ^ k - 1) (hk : k < 32) :
    (UInt32.ofNat i &&& mask).toNat = i % 2 ^ k := by
  rw [UInt32.toNat_and, hmask, Nat.and_two_pow_sub_one_eq_mod, UInt32.toNat_ofNat']
  exact Nat.mod_mod_of_dvd _ (Nat.pow_dvd_pow 2 hk.le)

/-- The difference of the indices counts, also when one of them has run through zero. -/
theorem toNat_sub_indices (hle : r ≤ w) (hlt : w < r + 2 ^ 32) :
    (UInt32.ofNat w - UInt32.ofNat r).toNat = w - r := by
  rw [← UInt32.ofNat_sub hle, UInt32.toNat_ofNat', Nat.mod_eq_of_lt (by omega)]

theorem indices_eq_iff (hle : r ≤ w) (hlt : w < r + 2 ^ 32) :
    UInt32.ofNat r = UInt32.ofNat w ↔ r = w := by
  refine ⟨fun h => ?_, fun h => by rw [h]⟩
  have hzero := toNat_sub_indices hle hlt
  rw [h, UInt32.sub_self] at hzero
  have hnat : (0 : UInt32).toNat = 0 := rfl
  omega

end Indices

/-! ### The invariant -/

/-- Where the producer stands: the packets that are in their slots, and how many of them the index
says. -/
def ProducerAt (acc written : List (StoragePacket P)) (pushed : ℕ) : Producer P → Prop
  | .idle => written = acc ∧ pushed = acc.length
  | .checked packet => acc = written ++ [packet] ∧ pushed = written.length
  | .stored => written = acc ∧ acc.length = pushed + 1

def ConsumerAt (acc tak : List (StoragePacket P)) (pushed : ℕ) : Consumer P → Prop
  | .idle => True
  | .polled => tak.length < pushed
  | .copied packet => tak.length < pushed ∧ acc[tak.length]? = some packet

/-- A queue of `2 ^ k` slots after the packets `acc` found room and `tak` were taken out. -/
structure Inv (k : ℕ) (acc tak written : List (StoragePacket P)) (pushed : ℕ) (s : State P) :
    Prop where
  length : s.queue.storagePacket.length = 2 ^ k
  mask : s.queue.mask.toNat = 2 ^ k - 1
  rd : s.queue.rdIdx = UInt32.ofNat tak.length
  wr : s.queue.wrIdx = UInt32.ofNat pushed
  taken : tak <+: acc
  le : tak.length ≤ pushed
  room : acc.length ≤ tak.length + 2 ^ k
  holds : Circular.Holds (2 ^ k) s.queue.storagePacket written
  producer : ProducerAt acc written pushed s.producer
  consumer : ConsumerAt acc tak pushed s.consumer

section Invariant

variable {k pushed : ℕ} {acc tak written : List (StoragePacket P)} {s s' : State P}
  {packet : StoragePacket P}

theorem Inv.written_prefix (h : Inv k acc tak written pushed s) : written <+: acc := by
  have hproducer := h.producer
  cases hp : s.producer with
  | idle =>
    rw [hp] at hproducer
    exact hproducer.1 ▸ List.prefix_refl _
  | checked packet =>
    rw [hp] at hproducer
    exact hproducer.1 ▸ List.prefix_append _ _
  | stored =>
    rw [hp] at hproducer
    exact hproducer.1 ▸ List.prefix_refl _

theorem Inv.pushed_le (h : Inv k acc tak written pushed s) : pushed ≤ written.length := by
  have hproducer := h.producer
  cases hp : s.producer with
  | idle =>
    rw [hp] at hproducer
    rw [hproducer.1, hproducer.2]
  | checked packet =>
    rw [hp] at hproducer
    exact hproducer.2.le
  | stored =>
    rw [hp] at hproducer
    rw [hproducer.1, hproducer.2]
    omega

theorem Inv.pushed_lt (h : Inv k acc tak written pushed s) (hk : k < 32) :
    pushed < tak.length + 2 ^ 32 := by
  have hpow : 2 ^ k < 2 ^ 32 := Nat.pow_lt_pow_right (by omega) hk
  have hroom := h.room
  have hle := h.pushed_le.trans h.written_prefix.length_le
  omega

theorem Inv.queueIsEmpty_iff (h : Inv k acc tak written pushed s) (hk : k < 32) :
    queueIsEmpty s.queue = true ↔ tak.length = pushed := by
  unfold queueIsEmpty
  rw [decide_eq_true_eq, h.rd, h.wr]
  exact indices_eq_iff h.le (h.pushed_lt hk)

/-- A queue is full when all its slots hold packets that are not taken out. -/
theorem Inv.queueIsFull_iff (h : Inv k acc tak written pushed s) (hk : k < 32) :
    queueIsFull s.queue = true ↔ tak.length + 2 ^ k ≤ pushed := by
  have hpos : 0 < 2 ^ k := Nat.two_pow_pos k
  have hle := h.le
  unfold queueIsFull
  rw [decide_eq_true_eq, gt_iff_lt, UInt32.lt_iff_toNat_lt, h.mask, h.rd, h.wr,
    toNat_sub_indices h.le (h.pushed_lt hk)]
  omega

/-- The consumer finds the packet that is next, whatever the producer does. -/
theorem Inv.queuePrePop_eq (h : Inv k acc tak written pushed s) (hk : k < 32)
    (hlt : tak.length < pushed) : queuePrePop s.queue = acc[tak.length]? := by
  have hempty : ¬ queueIsEmpty s.queue = true := by
    rw [h.queueIsEmpty_iff hk]
    omega
  have hwritten : tak.length < written.length := hlt.trans_le h.pushed_le
  have hroom : written.length ≤ tak.length + 2 ^ k := h.written_prefix.length_le.trans h.room
  unfold queuePrePop
  rw [if_neg hempty, h.rd, toNat_and_mask h.mask hk, ← h.length, h.holds _ hwritten hroom]
  obtain ⟨rest, hrest⟩ := h.written_prefix
  rw [← hrest, List.getElem?_append_left hwritten]

/-! #### Steps -/

theorem Inv.arrive (h : Inv k acc tak written pushed s) (hk : k < 32) {o : Output P}
    (hs : step s (.arrive packet) = some (s', o)) :
    (o = .dropped packet ∧ acc.length = tak.length + 2 ^ k ∧ s' = s) ∨
      (o = .accepted packet ∧ acc.length < tak.length + 2 ^ k ∧
        Inv k (acc ++ [packet]) tak written pushed s') := by
  unfold step at hs
  cases hp : s.producer with
  | idle =>
    have hproducer := h.producer
    rw [hp] at hs hproducer
    obtain ⟨rfl, hpushed⟩ := hproducer
    have hfull := h.queueIsFull_iff hk
    have hroom := h.room
    dsimp only at hs
    split_ifs at hs with hqueue
    · cases hs
      rw [hfull] at hqueue
      exact Or.inl ⟨rfl, by omega, rfl⟩
    · cases hs
      rw [hfull] at hqueue
      refine Or.inr ⟨rfl, by omega, { h with
        taken := h.taken.trans (List.prefix_append _ _)
        room := ?_
        producer := ⟨rfl, hpushed⟩
        consumer := ?_ }⟩
      · rw [List.length_append, List.length_singleton]
        omega
      · have hconsumer := h.consumer
        cases hc : s.consumer with
        | idle => trivial
        | polled =>
          rw [hc] at hconsumer
          exact hconsumer
        | copied packet' =>
          rw [hc] at hconsumer
          obtain ⟨hlt, hget⟩ := hconsumer
          exact ⟨hlt, by rwa [List.getElem?_append_left (by omega)]⟩
  | checked packet' =>
    rw [hp] at hs
    cases hs
  | stored =>
    rw [hp] at hs
    cases hs

theorem Inv.store (h : Inv k acc tak written pushed s) (hk : k < 32) {o : Output P}
    (hs : step s .store = some (s', o)) : o = .silent ∧ Inv k acc tak acc pushed s' := by
  unfold step at hs
  cases hp : s.producer with
  | idle =>
    rw [hp] at hs
    cases hs
  | checked packet' =>
    have hproducer := h.producer
    rw [hp] at hs hproducer
    obtain ⟨rfl, rfl⟩ := hproducer
    cases hs
    have hslot : (s.queue.wrIdx &&& s.queue.mask).toNat =
        written.length % s.queue.storagePacket.length := by
      rw [h.wr, toNat_and_mask h.mask hk, h.length]
    have hholds := h.holds
    rw [← h.length] at hholds
    have hwritten := hholds.write_full (by rw [h.length]; exact Nat.two_pow_pos k) packet'
    refine ⟨rfl, { h with
      length := ?_
      holds := ?_
      producer := ⟨rfl, by rw [List.length_append, List.length_singleton]⟩ }⟩
    · show (s.queue.storagePacket.set _ _).length = _
      rw [List.length_set, h.length]
    · show Circular.Holds _ (s.queue.storagePacket.set _ _) _
      rw [hslot, ← h.length]
      exact hwritten
  | stored =>
    rw [hp] at hs
    cases hs

theorem Inv.advance (h : Inv k acc tak written pushed s) {o : Output P}
    (hs : step s .advance = some (s', o)) :
    o = .silent ∧ Inv k acc tak written (pushed + 1) s' := by
  unfold step at hs
  cases hp : s.producer with
  | idle =>
    rw [hp] at hs
    cases hs
  | checked packet' =>
    rw [hp] at hs
    cases hs
  | stored =>
    have hproducer := h.producer
    rw [hp] at hs hproducer
    cases hs
    obtain ⟨rfl, hlength⟩ := hproducer
    refine ⟨rfl, { h with
      wr := ?_
      le := h.le.trans (Nat.le_succ pushed)
      producer := ⟨rfl, hlength.symm⟩
      consumer := ?_ }⟩
    · show s.queue.wrIdx + 1 = _
      rw [h.wr, UInt32.ofNat_add]
      rfl
    · have hconsumer := h.consumer
      cases hc : s.consumer with
      | idle => trivial
      | polled =>
        rw [hc] at hconsumer
        exact Nat.lt_succ_of_lt hconsumer
      | copied packet' =>
        rw [hc] at hconsumer
        exact ⟨Nat.lt_succ_of_lt hconsumer.1, hconsumer.2⟩

theorem Inv.poll (h : Inv k acc tak written pushed s) (hk : k < 32) {o : Output P}
    (hs : step s .poll = some (s', o)) : o = .silent ∧ Inv k acc tak written pushed s' := by
  unfold step at hs
  cases hc : s.consumer with
  | idle =>
    rw [hc] at hs
    dsimp only at hs
    split_ifs at hs with hempty
    · cases hs
      exact ⟨rfl, h⟩
    · cases hs
      rw [h.queueIsEmpty_iff hk] at hempty
      have hle := h.le
      exact ⟨rfl, { h with consumer := (by omega : tak.length < pushed) }⟩
  | polled =>
    rw [hc] at hs
    cases hs
  | copied packet' =>
    rw [hc] at hs
    cases hs

theorem Inv.copy (h : Inv k acc tak written pushed s) (hk : k < 32) {o : Output P}
    (hs : step s .copy = some (s', o)) : o = .silent ∧ Inv k acc tak written pushed s' := by
  unfold step at hs
  cases hc : s.consumer with
  | idle =>
    rw [hc] at hs
    cases hs
  | polled =>
    have hlt := h.consumer
    rw [hc] at hs hlt
    have hpop := h.queuePrePop_eq hk hlt
    have hacc : tak.length < acc.length :=
      lt_of_lt_of_le hlt (h.pushed_le.trans h.written_prefix.length_le)
    rw [List.getElem?_eq_getElem hacc] at hpop
    dsimp only at hs
    rw [hpop] at hs
    cases hs
    exact ⟨rfl, { h with consumer := ⟨hlt, List.getElem?_eq_getElem hacc⟩ }⟩
  | copied packet' =>
    rw [hc] at hs
    cases hs

theorem Inv.release (h : Inv k acc tak written pushed s) {o : Output P}
    (hs : step s .release = some (s', o)) :
    ∃ packet, o.room = none ∧ o.out = some packet ∧
      Inv k acc (tak ++ [packet]) written pushed s' := by
  unfold step at hs
  cases hc : s.consumer with
  | idle =>
    rw [hc] at hs
    cases hs
  | polled =>
    rw [hc] at hs
    cases hs
  | copied packet' =>
    have hconsumer := h.consumer
    rw [hc] at hs hconsumer
    obtain ⟨hlt, hget⟩ := hconsumer
    cases hs
    refine ⟨packet', by split_ifs <;> rfl, by split_ifs <;> rfl, { h with
      rd := ?_
      taken := ?_
      le := ?_
      room := ?_
      consumer := trivial }⟩
    · show s.queue.rdIdx + 1 = _
      rw [h.rd, List.length_append, List.length_singleton, UInt32.ofNat_add]
      rfl
    · obtain ⟨rest, hrest⟩ := h.taken
      rw [← hrest, List.getElem?_append_right (Nat.le_refl _), Nat.sub_self] at hget
      cases rest with
      | nil => cases hget
      | cons a rest =>
        cases hget
        exact ⟨rest, by rw [← hrest, List.append_assoc]; rfl⟩
    · rw [List.length_append, List.length_singleton]
      exact hlt
    · have hroom := h.room
      rw [List.length_append, List.length_singleton]
      omega

end Invariant

/-! ### Runs -/

section Runs

variable {k : ℕ} {queueSize : UInt32} {tr : Trace P} {s s' : State P}

theorem inv_init (hsize : (realSize queueSize).toNat = 2 ^ k) :
    Inv k [] [] [] 0 (machine P queueSize).init := by
  have hone : (1 : UInt32) ≤ realSize queueSize := by
    rw [UInt32.le_iff_toNat_le, hsize]
    exact Nat.one_le_two_pow
  refine ⟨?_, ?_, rfl, rfl, List.prefix_refl _, Nat.le_refl _, Nat.zero_le _, Circular.holds_nil _ _,
    ⟨rfl, rfl⟩, trivial⟩
  · show (List.replicate _ _).length = _
    rw [List.length_replicate, hsize]
  · show (realSize queueSize - 1).toNat = _
    rw [UInt32.toNat_sub_of_le _ _ hone, hsize]
    rfl

/-- One step of either thread keeps the invariant. -/
theorem Inv.step {acc tak written : List (StoragePacket P)} {pushed : ℕ}
    (h : Inv k acc tak written pushed s) (hk : k < 32) {e : Event P} {o : Output P}
    (hs : step s e = some (s', o)) :
    ∃ written' pushed', Inv k (acc ++ o.room.toList) (tak ++ o.out.toList) written' pushed' s' := by
  cases e with
  | arrive packet =>
    rcases h.arrive hk hs with ⟨rfl, -, rfl⟩ | ⟨rfl, -, h'⟩
    · exact ⟨written, pushed, by simpa [Output.room, Output.out] using h⟩
    · exact ⟨written, pushed, by simpa [Output.room, Output.out] using h'⟩
  | store =>
    obtain ⟨rfl, h'⟩ := h.store hk hs
    exact ⟨acc, pushed, by simpa [Output.room, Output.out] using h'⟩
  | advance =>
    obtain ⟨rfl, h'⟩ := h.advance hs
    exact ⟨written, pushed + 1, by simpa [Output.room, Output.out] using h'⟩
  | poll =>
    obtain ⟨rfl, h'⟩ := h.poll hk hs
    exact ⟨written, pushed, by simpa [Output.room, Output.out] using h'⟩
  | copy =>
    obtain ⟨rfl, h'⟩ := h.copy hk hs
    exact ⟨written, pushed, by simpa [Output.room, Output.out] using h'⟩
  | release =>
    obtain ⟨packet, hroom, hout, h'⟩ := h.release hs
    exact ⟨written, pushed, by simpa [hroom, hout] using h'⟩

theorem inv_of_reaches (hk : k < 32) (hsize : (realSize queueSize).toNat = 2 ^ k)
    (h : (machine P queueSize).Reaches tr s) :
    ∃ written pushed, Inv k (accepted tr) (taken tr) written pushed s := by
  refine Machine.Run.invariant (I := fun tr s => ∃ written pushed,
    Inv k (accepted tr) (taken tr) written pushed s) ⟨[], 0, inv_init hsize⟩ ?_ h
  rintro tr s e s' o - ⟨written, pushed, hinv⟩ - hs
  rw [accepted_concat, taken_concat]
  exact hinv.step hk hs

/-- **The queue between the two threads.**  However their steps are interleaved and however often
the indices run through zero, the packets that are taken out are the ones that found room, in order
and none twice, and a packet that arrives is dropped exactly if as many packets wait as there are
slots. -/
theorem queue_fifo (h : (machine P queueSize).Reaches tr s) :
    taken tr <+: accepted tr ∧
      (accepted tr).length ≤ (taken tr).length + (realSize queueSize).toNat ∧
      ∀ packet s' o, step s (.arrive packet) = some (s', o) →
        o = if (accepted tr).length < (taken tr).length + (realSize queueSize).toNat then
          .accepted packet else .dropped packet := by
  obtain ⟨k, hk, hsize, -⟩ := realSize_spec queueSize
  obtain ⟨written, pushed, hinv⟩ := inv_of_reaches hk hsize h
  rw [hsize]
  refine ⟨hinv.taken, hinv.room, fun packet s' o hs => ?_⟩
  rcases hinv.arrive hk hs with ⟨rfl, hfull, -⟩ | ⟨rfl, hroom, -⟩
  · rw [if_neg (by omega)]
  · rw [if_pos hroom]

/-- A queue of two slots that gets three packets. -/
def busy : List (Event ℕ) :=
  [.arrive ⟨1, [1]⟩, .store, .advance, .arrive ⟨2, []⟩, .poll, .store, .copy, .advance,
    .arrive ⟨3, [3]⟩, .release, .arrive ⟨4, [4]⟩]

theorem queue_fifo_busy : ∃ tr s, (machine ℕ 2).Reaches tr s ∧
    taken tr <+: accepted tr ∧ taken tr = [⟨1, [1]⟩] ∧
    accepted tr = [⟨1, [1]⟩, ⟨2, []⟩, ⟨4, [4]⟩] := by
  obtain ⟨tr, s, hreach, htaken, haccepted⟩ := Machine.exists_reaches_of_exec (M := machine ℕ 2)
    (p := fun r => taken r.1 = [⟨1, [1]⟩] ∧ accepted r.1 = [⟨1, [1]⟩, ⟨2, []⟩, ⟨4, [4]⟩])
    busy (by decide)
  exact ⟨tr, s, hreach, (queue_fifo hreach).1, htaken, haccepted⟩

end Runs

end RoverSwarm.LivoxDriver
