import Mathlib.Algebra.Ring.Nat
import Mathlib.Data.List.Infix
import RoverSwarm.Lib.Circular
import RoverSwarm.Lib.Transition

/-!
# LidarPacketHandler — scans between the packets and the point clouds

The thread that receives packets batches them into the scan at the write head of a ring buffer and
writes the head when the scan is complete; another thread hands the scan at the read head to the
handlers.  Each thread writes one of the two heads and loads the other one, and every load is a step
of its own: `size` loads both heads twice, and the other thread may write between the loads.

The scans are in the buffer, but the times of a scan are not.  They lie in two variables: the
handlers get the first one by value when they are called, and look at the second one through a
reference as long as they run.

`LIDAR_SCAN_COUNT` scans are allocated.  Batching, and the estimates of the three time modes, are a
parameter.
-/

namespace RoverSwarm.LidarPacketHandler

open Transition

/-! ### The ring buffer -/

/-- The difference of two values of the type `size_t`. -/
def sub (a b : ℕ) : ℕ := (a + 2 ^ 64 - b) % 2 ^ 64

structure LockFreeRingBuffer where
  capacity : ℕ
  writeIdx : ℕ
  readIdx : ℕ
deriving DecidableEq

namespace LockFreeRingBuffer

/-- `size`: the heads are loaded for the comparison, and again for the difference. -/
def size (capacity writeIdx readIdx writeIdx' readIdx' : ℕ) : ℕ :=
  if writeIdx ≥ readIdx then sub writeIdx' readIdx' else sub (writeIdx' + capacity) readIdx'

/-- `available`, when `size` has returned. -/
def available (capacity size : ℕ) : ℕ := sub (capacity - 1) size

variable (b : LockFreeRingBuffer)

def empty : Bool := b.readIdx = b.writeIdx

def full : Bool := b.readIdx = (b.writeIdx + 1) % b.capacity

/-- `write`, when `available` has returned, with what it returns. -/
def write (count available : ℕ) : LockFreeRingBuffer × Bool :=
  if count > available then (b, false)
  else ({ b with writeIdx := (b.writeIdx + count) % b.capacity }, true)

/-- `read`, when `size` has returned, with what it returns. -/
def read (count size : ℕ) : LockFreeRingBuffer × Bool :=
  if count > size then (b, false)
  else ({ b with readIdx := (b.readIdx + count) % b.capacity }, true)

end LockFreeRingBuffer

/-! ### The two threads -/

def LIDAR_SCAN_COUNT : ℕ := 10

/-- `size > THROTTLE_PERCENT * capacity`, of seven tenths. -/
def throttled (size capacity : ℕ) : Bool := 10 * size > 7 * capacity

/-- Where the thread of the packets is. -/
inductive Receiver (Packet MsgTs : Type)
  | idle
  /-- The buffer was not full. -/
  | batching (packet : Packet)
  /-- A scan is complete, and only the first of its times is written. -/
  | stamping (msgTs : MsgTs) (kept : Bool)
  /-- A scan was kept, and `write` is called. -/
  | complete
  /-- `size` has compared the heads. -/
  | compared (readIdx : ℕ)
  | counted (available : ℕ)

/-- Where the thread of `process_scans` is. -/
inductive Processor
  | idle
  /-- The buffer was not empty; so many handlers have been called. -/
  | handling (called : ℕ)
  /-- The first `size` has compared the heads. -/
  | throttling (writeIdx : ℕ)
  | reading (readStep : ℕ)
  /-- The `size` of `read` has compared the heads. -/
  | counting (readStep writeIdx : ℕ)
  | counted (readStep size : ℕ)
deriving DecidableEq

structure State (Scan Ts MsgTs Batcher Packet : Type) where
  ring : LockFreeRingBuffer
  lidarScans : List Scan
  /-- `lidar_scan_estimated_ts` -/
  estimatedTs : Option Ts
  /-- `lidar_scan_estimated_msg_ts` -/
  estimatedMsgTs : Option MsgTs
  batcher : Batcher
  receiver : Receiver Packet MsgTs
  processor : Processor

inductive Event (Packet : Type)
  | packet (packet : Packet)
  | batch
  | stamp
  /-- The thread of the packets loads the read head. -/
  | loadRead
  | write
  | poll
  | call
  /-- A handler looks at the time that it has a reference to. -/
  | look
  /-- The thread of `process_scans` loads the write head. -/
  | loadWrite
  | read
deriving DecidableEq

inductive Output (Scan Ts MsgTs : Type)
  | silent
  | dropped
  /-- A scan is complete; `kept` if it has enough valid columns. -/
  | batched (scan : Scan) (ts : Ts) (msgTs : MsgTs) (kept : Bool)
  | stamped (msgTs : MsgTs) (kept : Bool)
  | written
  | called (scan : Scan) (ts : Option Ts)
  | looked (msgTs : Option MsgTs)
  /-- The two loads of the write head, and how far the read head is to go on. -/
  | throttle (writeIdx writeIdx' readStep : ℕ)
  | advanced (step : ℕ)
deriving DecidableEq

section Threads

variable {Scan Ts MsgTs Batcher Packet : Type}
  (lidarHandler : Batcher → Packet → Scan → Batcher × Scan × Option (Ts × MsgTs))
  (valid : Scan → Bool) (handlers : ℕ)

/-- The accumulator: the packet is batched into the scan at the write head. -/
def accumulate (s : State Scan Ts MsgTs Batcher Packet) (packet : Packet) :
    Option (State Scan Ts MsgTs Batcher Packet × Output Scan Ts MsgTs) :=
  s.lidarScans[s.ring.writeIdx]?.map fun scan =>
    let (batcher, scan, times) := lidarHandler s.batcher packet scan
    let s := { s with lidarScans := s.lidarScans.set s.ring.writeIdx scan, batcher := batcher }
    match times with
    | none => ({ s with receiver := .idle }, .silent)
    | some (ts, msgTs) =>
      ({ s with estimatedTs := some ts, receiver := .stamping msgTs (valid scan) },
        .batched scan ts msgTs (valid scan))

/-- A step of the thread of the packets. -/
def receive (s : State Scan Ts MsgTs Batcher Packet) :
    Event Packet → Option (State Scan Ts MsgTs Batcher Packet × Output Scan Ts MsgTs)
  | .packet packet => match s.receiver with
    | .idle =>
      if s.ring.full then some (s, .dropped)
      else some ({ s with receiver := .batching packet }, .silent)
    | _ => none
  | .batch => match s.receiver with
    | .batching packet => accumulate lidarHandler valid s packet
    | _ => none
  | .stamp => match s.receiver with
    | .stamping msgTs kept =>
      some ({ s with
        estimatedMsgTs := some msgTs
        receiver := if kept then .complete else .idle }, .stamped msgTs kept)
    | _ => none
  | .loadRead => match s.receiver with
    | .complete => some ({ s with receiver := .compared s.ring.readIdx }, .silent)
    | .compared readIdx =>
      let size := LockFreeRingBuffer.size s.ring.capacity s.ring.writeIdx readIdx s.ring.writeIdx
        s.ring.readIdx
      some ({ s with
        receiver := .counted (LockFreeRingBuffer.available s.ring.capacity size) }, .silent)
    | _ => none
  | .write => match s.receiver with
    | .counted available =>
      let (ring, done) := s.ring.write 1 available
      some ({ s with ring := ring, receiver := .idle }, if done then .written else .silent)
    | _ => none
  | _ => none

/-- A step of the thread of `process_scans`. -/
def processScans (s : State Scan Ts MsgTs Batcher Packet) :
    Event Packet → Option (State Scan Ts MsgTs Batcher Packet × Output Scan Ts MsgTs)
  | .poll => match s.processor with
    | .idle =>
      some ({ s with processor := if s.ring.empty then .idle else .handling 0 }, .silent)
    | _ => none
  | .call => match s.processor with
    | .handling called =>
      if called < handlers then
        s.lidarScans[s.ring.readIdx]?.map fun scan =>
          ({ s with processor := .handling (called + 1) }, .called scan s.estimatedTs)
      else none
    | _ => none
  | .look => match s.processor with
    | .handling (_ + 1) => some (s, .looked s.estimatedMsgTs)
    | _ => none
  | .loadWrite => match s.processor with
    | .handling called =>
      if called = handlers then some ({ s with processor := .throttling s.ring.writeIdx }, .silent)
      else none
    | .throttling writeIdx =>
      let size := LockFreeRingBuffer.size s.ring.capacity writeIdx s.ring.readIdx s.ring.writeIdx
        s.ring.readIdx
      let readStep := if throttled size s.ring.capacity then 2 else 1
      some ({ s with processor := .reading readStep }, .throttle writeIdx s.ring.writeIdx readStep)
    | .reading readStep =>
      some ({ s with processor := .counting readStep s.ring.writeIdx }, .silent)
    | .counting readStep writeIdx =>
      let size := LockFreeRingBuffer.size s.ring.capacity writeIdx s.ring.readIdx s.ring.writeIdx
        s.ring.readIdx
      some ({ s with processor := .counted readStep size }, .silent)
    | _ => none
  | .read => match s.processor with
    | .counted readStep size =>
      let (ring, done) := s.ring.read readStep size
      some ({ s with ring := ring, processor := .idle }, .advanced (if done then readStep else 0))
    | _ => none
  | _ => none

/-- One step of one of the threads; `none` if the thread is not there. -/
def step (s : State Scan Ts MsgTs Batcher Packet) (e : Event Packet) :
    Option (State Scan Ts MsgTs Batcher Packet × Output Scan Ts MsgTs) :=
  match e with
  | .packet _ | .batch | .stamp | .loadRead | .write => receive lidarHandler valid s e
  | .poll | .call | .look | .loadWrite | .read => processScans handlers s e

def machine (scan : Scan) (batcher : Batcher) :
    Machine (State Scan Ts MsgTs Batcher Packet) (Event Packet) (Output Scan Ts MsgTs) where
  init := ⟨⟨LIDAR_SCAN_COUNT, 0, 0⟩, List.replicate LIDAR_SCAN_COUNT scan, none, none, batcher,
    .idle, .idle⟩
  step := step lidarHandler valid handlers

end Threads

/-! ### What goes in and what comes out -/

/-- What has happened in a run. -/
structure History (Scan Ts MsgTs : Type) where
  /-- The scans that were kept, with the times that were estimated for them. -/
  kept : List (Scan × Ts × MsgTs) := []
  /-- What was written to the first variable, and whether for a scan that was kept. -/
  estimates : List (Ts × Bool) := []
  /-- The same for the second variable. -/
  stamps : List (MsgTs × Bool) := []
  /-- How far the write head has come. -/
  writes : ℕ := 0
  /-- How far the read head has come. -/
  reads : ℕ := 0
  /-- How far the read head was last said to go on. -/
  decided : Option ℕ := none

section History

variable {Scan Ts MsgTs Packet : Type}

def History.add (h : History Scan Ts MsgTs) : Output Scan Ts MsgTs → History Scan Ts MsgTs
  | .batched scan ts msgTs kept =>
    { h with
      kept := if kept then h.kept ++ [(scan, ts, msgTs)] else h.kept
      estimates := h.estimates ++ [(ts, kept)] }
  | .stamped msgTs kept => { h with stamps := h.stamps ++ [(msgTs, kept)] }
  | .written => { h with writes := h.writes + 1 }
  | .throttle _ _ readStep => { h with decided := some readStep }
  | .advanced step => { h with reads := h.reads + step }
  | _ => h

abbrev Trace (Scan Ts MsgTs Packet : Type) := List (Event Packet × Output Scan Ts MsgTs)

def history (tr : Trace Scan Ts MsgTs Packet) : History Scan Ts MsgTs :=
  tr.foldl (fun h x => h.add x.2) {}

theorem history_concat (tr : Trace Scan Ts MsgTs Packet) (e : Event Packet)
    (o : Output Scan Ts MsgTs) : history (tr ++ [(e, o)]) = (history tr).add o :=
  List.foldl_concat _ _ _ _

theorem History.times_add (h : History Scan Ts MsgTs) (o : Output Scan Ts MsgTs) :
    h.estimates <+: (h.add o).estimates ∧ h.stamps <+: (h.add o).stamps := by
  cases o with
  | batched scan ts msgTs kept => exact ⟨List.prefix_append _ _, List.prefix_refl _⟩
  | stamped msgTs kept => exact ⟨List.prefix_refl _, List.prefix_append _ _⟩
  | _ => exact ⟨List.prefix_refl _, List.prefix_refl _⟩

/-- What was written to the variables up to some moment. -/
theorem times_mono {pre tr : Trace Scan Ts MsgTs Packet} (h : pre <+: tr) :
    (history pre).estimates <+: (history tr).estimates ∧
      (history pre).stamps <+: (history tr).stamps := by
  obtain ⟨rest, rfl⟩ := h
  induction rest using List.reverseRecOn with
  | nil =>
    rw [List.append_nil]
    exact ⟨List.prefix_refl _, List.prefix_refl _⟩
  | append_singleton rest x ih =>
    obtain ⟨hestimates, hstamps⟩ := (history (pre ++ rest)).times_add x.2
    rw [← List.append_assoc, history_concat]
    exact ⟨ih.1.trans hestimates, ih.2.trans hstamps⟩

end History

/-! ### Heads that are loaded one after the other -/

section Loads

variable {i r w : ℕ}

/-- The reader counts the scans that are written and not read; or, if the write head comes round
between the two loads of it, more than any buffer holds. -/
theorem size_of_loads (hr : r < i) (hi : i ≤ w) (hroom : w ≤ r + 9) :
    (LockFreeRingBuffer.size 10 (i % 10) (r % 10) (w % 10) (r % 10) = w - r ∧
        ¬ (w % 10 < r % 10 ∧ r % 10 ≤ i % 10)) ∨
      (10 ≤ LockFreeRingBuffer.size 10 (i % 10) (r % 10) (w % 10) (r % 10) ∧ r + 2 ≤ w ∧
        w % 10 < r % 10 ∧ r % 10 ≤ i % 10) := by
  unfold LockFreeRingBuffer.size sub
  split_ifs <;> omega

/-- The writer finds room for one more scan, however the read head goes on between the loads. -/
theorem available_of_loads (hi : i ≤ r) (hr : r ≤ w) (hroom : w ≤ i + 8) :
    1 ≤ LockFreeRingBuffer.available 10
      (LockFreeRingBuffer.size 10 (w % 10) (i % 10) (w % 10) (r % 10)) := by
  unfold LockFreeRingBuffer.available LockFreeRingBuffer.size sub
  split_ifs <;> omega

end Loads

/-! ### The invariant -/

section Receiver

variable {Packet MsgTs : Type} {r r' w : ℕ}

namespace Receiver

/-- A scan was kept, and the head is not written yet. -/
def pending : Receiver Packet MsgTs → Bool
  | .stamping _ kept => kept
  | .complete | .compared _ | .counted _ => true
  | .idle | .batching _ => false

/-- The second time of a scan that was kept, until it is written. -/
def unstamped : Receiver Packet MsgTs → List MsgTs
  | .stamping msgTs true => [msgTs]
  | _ => []

theorem length_unstamped_le (receiver : Receiver Packet MsgTs) :
    receiver.unstamped.length ≤ if receiver.pending then 1 else 0 := by
  cases receiver with
  | stamping msgTs kept => cases kept <;> rfl
  | _ => exact Nat.zero_le _

/-- What the thread knows of the heads, when `r` scans are read and `w` are written. -/
def Ok (r w : ℕ) : Receiver Packet MsgTs → Prop
  | .batching _ => w < r + 9
  | .compared readIdx => ∃ i ≤ r, readIdx = i % 10 ∧ w ≤ i + 8
  | .counted available => 1 ≤ available
  | .idle | .stamping _ _ | .complete => True

theorem Ok.mono {receiver : Receiver Packet MsgTs} (h : receiver.Ok r w) (hle : r ≤ r') :
    receiver.Ok r' w := by
  cases receiver with
  | batching packet => exact Nat.lt_of_lt_of_le h (Nat.add_le_add_right hle 9)
  | compared readIdx =>
    obtain ⟨i, hi, hrest⟩ := h
    exact ⟨i, hi.trans hle, hrest⟩
  | _ => exact h

end Receiver

/-- The write head was loaded since the last reading. -/
def Loaded (r w writeIdx : ℕ) : Prop := ∃ i, r < i ∧ i ≤ w ∧ writeIdx = i % 10

/-- The read head can go on so far. -/
def Steps (r w : ℕ) (decided : Option ℕ) (readStep : ℕ) : Prop :=
  decided = some readStep ∧ 1 ≤ readStep ∧ readStep ≤ 2 ∧ r + readStep ≤ w

/-- What the thread knows of the heads. -/
def Processor.Ok (r w : ℕ) (decided : Option ℕ) : Processor → Prop
  | .idle => True
  | .handling _ => r < w
  | .throttling writeIdx => Loaded r w writeIdx
  | .reading readStep => Steps r w decided readStep
  | .counting readStep writeIdx => Steps r w decided readStep ∧ Loaded r w writeIdx
  | .counted readStep size => Steps r w decided readStep ∧ readStep ≤ size

variable {decided : Option ℕ} {processor : Processor}

theorem Processor.Ok.lt (h : processor.Ok r w decided) (hne : processor ≠ .idle) : r < w := by
  cases processor with
  | idle => exact absurd rfl hne
  | handling called => exact h
  | throttling writeIdx =>
    obtain ⟨i, hr, hi, -⟩ := h
    exact hr.trans_le hi
  | reading readStep =>
    obtain ⟨-, hpos, -, hle⟩ := h
    omega
  | counting readStep writeIdx =>
    obtain ⟨⟨-, hpos, -, hle⟩, -⟩ := h
    omega
  | counted readStep size =>
    obtain ⟨⟨-, hpos, -, hle⟩, -⟩ := h
    omega

/-- One more scan is written. -/
theorem Processor.Ok.succ (h : processor.Ok r w decided) : processor.Ok r (w + 1) decided := by
  have hloaded {writeIdx : ℕ} : Loaded r w writeIdx → Loaded r (w + 1) writeIdx :=
    fun ⟨i, hr, hi, heq⟩ => ⟨i, hr, Nat.le_succ_of_le hi, heq⟩
  have hsteps {readStep : ℕ} : Steps r w decided readStep → Steps r (w + 1) decided readStep :=
    fun ⟨heq, hpos, htwo, hle⟩ => ⟨heq, hpos, htwo, Nat.le_succ_of_le hle⟩
  cases processor with
  | idle => exact trivial
  | handling called => exact Nat.lt_succ_of_lt h
  | throttling writeIdx => exact hloaded h
  | reading readStep => exact hsteps h
  | counting readStep writeIdx => exact ⟨hsteps h.1, hloaded h.2⟩
  | counted readStep size => exact ⟨hsteps h.1, h.2⟩

end Receiver

section Invariant

variable {Scan Ts MsgTs Batcher Packet : Type}
  {lidarHandler : Batcher → Packet → Scan → Batcher × Scan × Option (Ts × MsgTs)}
  {valid : Scan → Bool} {handlers : ℕ}

structure Inv (h : History Scan Ts MsgTs) (s : State Scan Ts MsgTs Batcher Packet) : Prop where
  capacity : s.ring.capacity = 10
  length : s.lidarScans.length = 10
  writeIdx : s.ring.writeIdx = h.writes % 10
  readIdx : s.ring.readIdx = h.reads % 10
  kept : h.kept.length = h.writes + if s.receiver.pending then 1 else 0
  le : h.reads ≤ h.writes
  room : h.kept.length ≤ h.reads + 9
  holds : Circular.Holds 9 s.lidarScans (h.kept.map Prod.fst)
  estimatedTs : s.estimatedTs = h.estimates.getLast?.map Prod.fst
  estimatedMsgTs : s.estimatedMsgTs = h.stamps.getLast?.map Prod.fst
  estimates : (h.estimates.filter Prod.snd).map Prod.fst = h.kept.map fun x => x.2.1
  stamps : (h.stamps.filter Prod.snd).map Prod.fst ++ s.receiver.unstamped =
    h.kept.map fun x => x.2.2
  receiver : s.receiver.Ok h.reads h.writes
  processor : s.processor.Ok h.reads h.writes h.decided

variable {h : History Scan Ts MsgTs} {s s' : State Scan Ts MsgTs Batcher Packet}
  {o : Output Scan Ts MsgTs}

theorem Inv.writes_le (hinv : Inv h s) : h.writes ≤ h.reads + 9 := by
  have hroom := hinv.room
  have hkept := hinv.kept
  omega

theorem Inv.full_iff (hinv : Inv h s) : s.ring.full = true ↔ h.writes = h.reads + 9 := by
  have hle := hinv.le
  have hroom := hinv.writes_le
  unfold LockFreeRingBuffer.full
  rw [decide_eq_true_eq, hinv.writeIdx, hinv.readIdx, hinv.capacity]
  omega

theorem Inv.empty_iff (hinv : Inv h s) : s.ring.empty = true ↔ h.reads = h.writes := by
  have hle := hinv.le
  have hroom := hinv.writes_le
  unfold LockFreeRingBuffer.empty
  rw [decide_eq_true_eq, hinv.writeIdx, hinv.readIdx]
  omega

/-- The thread that batches and the one that hands out are never at one scan. -/
theorem Inv.heads_ne (hinv : Inv h s) (hprocessor : s.processor ≠ .idle) :
    s.ring.readIdx ≠ s.ring.writeIdx := by
  have hlt := hinv.processor.lt hprocessor
  have hroom := hinv.writes_le
  rw [hinv.writeIdx, hinv.readIdx]
  omega

/-- The second times of the scans that are written have been written. -/
theorem Inv.lt_length_stamps (hinv : Inv h s) {i : ℕ} (hlt : i < h.writes) :
    i < ((h.stamps.filter Prod.snd).map Prod.fst).length := by
  have hkept := hinv.kept
  have hunstamped := s.receiver.length_unstamped_le
  have hlength := congrArg List.length hinv.stamps
  simp only [List.length_append, List.length_map] at hlength
  rw [List.length_map]
  omega

/-! ### The thread of the packets -/

theorem Inv.packet (hinv : Inv h s) {packet : Packet}
    (hs : receive lidarHandler valid s (.packet packet) = some (s', o)) : Inv (h.add o) s' := by
  unfold receive at hs
  dsimp only at hs
  split at hs
  · rename_i hidle
    have hfull := hinv.full_iff
    split_ifs at hs with hfull'
    · cases hs
      exact hinv
    · cases hs
      have hroom := hinv.writes_le
      have hlt : h.writes < h.reads + 9 := by
        rw [hfull] at hfull'
        omega
      have hkept := hinv.kept
      have hstamps := hinv.stamps
      rw [hidle] at hkept hstamps
      exact { hinv with kept := hkept, stamps := hstamps, receiver := hlt }
  · cases hs

theorem Inv.set_eq_write (hinv : Inv h s) (hpending : s.receiver.pending = false) (scan : Scan) :
    s.lidarScans.set s.ring.writeIdx scan =
      Circular.write s.lidarScans (h.kept.map Prod.fst).length scan := by
  have hkept := hinv.kept
  rw [hpending] at hkept
  unfold Circular.write
  rw [List.length_map, hkept, hinv.writeIdx, hinv.length]
  rfl

/-- Packets of a scan that is not complete change only the scan at the write head. -/
theorem Inv.batched (hinv : Inv h s) (hpending : s.receiver.pending = false)
    (hunstamped : s.receiver.unstamped = []) (scan : Scan) (batcher : Batcher) :
    Inv h ({ s with
      lidarScans := s.lidarScans.set s.ring.writeIdx scan
      batcher := batcher
      receiver := .idle } : State Scan Ts MsgTs Batcher Packet) := by
  have hkept := hinv.kept
  have hstamps := hinv.stamps
  rw [hpending] at hkept
  rw [hunstamped] at hstamps
  refine { hinv with
    length := List.length_set.trans hinv.length
    kept := hkept
    holds := ?_
    stamps := hstamps
    receiver := trivial }
  dsimp only
  rw [hinv.set_eq_write hpending]
  refine hinv.holds.scribble ?_ scan
  rw [hinv.length]
  omega

/-- A scan with too few columns leaves its first time behind. -/
theorem Inv.skipped (hinv : Inv h s) (hidle : s.receiver = .idle) (scan : Scan) (ts : Ts)
    (msgTs : MsgTs) :
    Inv (h.add (.batched scan ts msgTs false))
      ({ s with estimatedTs := some ts, receiver := .stamping msgTs false } :
        State Scan Ts MsgTs Batcher Packet) := by
  have hkept := hinv.kept
  have hstamps := hinv.stamps
  rw [hidle] at hkept hstamps
  refine { hinv with
    kept := hkept
    stamps := hstamps
    receiver := trivial
    estimatedTs := ?_
    estimates := ?_ }
  · simp [History.add]
  · simpa [History.add] using hinv.estimates

theorem Inv.keep (hinv : Inv h s) (hpending : s.receiver.pending = false)
    (hunstamped : s.receiver.unstamped = []) (hlt : h.writes < h.reads + 9) (scan : Scan) (ts : Ts)
    (msgTs : MsgTs) (batcher : Batcher) :
    Inv (h.add (.batched scan ts msgTs true)) ({ s with
      lidarScans := s.lidarScans.set s.ring.writeIdx scan
      batcher := batcher
      estimatedTs := some ts
      receiver := .stamping msgTs true } : State Scan Ts MsgTs Batcher Packet) := by
  have hkept := hinv.kept
  have hstamps := hinv.stamps
  rw [hpending] at hkept
  rw [hunstamped, List.append_nil] at hstamps
  have hlength : (h.kept ++ [(scan, ts, msgTs)]).length = h.writes + 1 := by
    rw [List.length_append, hkept]
    rfl
  refine { hinv with
    length := List.length_set.trans hinv.length
    kept := hlength
    room := hlength.trans_le hlt
    holds := ?_
    estimatedTs := ?_
    estimates := ?_
    stamps := ?_
    receiver := trivial }
  · dsimp only [History.add]
    rw [if_pos rfl, hinv.set_eq_write hpending, List.map_append]
    refine (hinv.holds.write ?_ scan).mono (by omega)
    rw [hinv.length]
    omega
  · simp [History.add]
  · dsimp only [History.add]
    rw [if_pos rfl, List.filter_append, List.map_append, hinv.estimates, List.map_append]
    rfl
  · dsimp only [History.add]
    rw [if_pos rfl, List.map_append, ← hstamps]
    rfl

theorem Inv.batch (hinv : Inv h s) (hs : receive lidarHandler valid s .batch = some (s', o)) :
    Inv (h.add o) s' := by
  unfold receive at hs
  dsimp only at hs
  split at hs
  · rename_i packet hbatching
    have hpending : s.receiver.pending = false := by rw [hbatching]; rfl
    have hunstamped : s.receiver.unstamped = [] := by rw [hbatching]; rfl
    have hlt : h.writes < h.reads + 9 := by
      have hok := hinv.receiver
      rwa [hbatching] at hok
    have hslot : s.ring.writeIdx < s.lidarScans.length := by
      rw [hinv.writeIdx, hinv.length]
      omega
    unfold accumulate at hs
    rw [List.getElem?_eq_getElem hslot, Option.map_some] at hs
    cases hhandler : lidarHandler s.batcher packet s.lidarScans[s.ring.writeIdx] with
    | mk batcher result =>
      obtain ⟨scan, times⟩ := result
      rw [hhandler] at hs
      dsimp only at hs
      have hbatched := hinv.batched hpending hunstamped scan batcher
      cases times with
      | none =>
        cases hs
        exact hbatched
      | some times =>
        obtain ⟨ts, msgTs⟩ := times
        cases hs
        cases hvalid : valid scan with
        | false => exact hbatched.skipped rfl scan ts msgTs
        | true => exact hinv.keep hpending hunstamped hlt scan ts msgTs batcher
  · cases hs

/-- The second time is written. -/
theorem Inv.stamp (hinv : Inv h s) (hs : receive lidarHandler valid s .stamp = some (s', o)) :
    Inv (h.add o) s' := by
  unfold receive at hs
  dsimp only at hs
  split at hs
  · rename_i msgTs kept hstamping
    cases hs
    have hkept := hinv.kept
    have hstamps := hinv.stamps
    rw [hstamping] at hkept hstamps
    cases kept with
    | false =>
      refine { hinv with
        kept := hkept
        receiver := trivial
        estimatedMsgTs := ?_
        stamps := ?_ }
      · simp [History.add]
      · simpa [History.add, Receiver.unstamped] using hstamps
    | true =>
      refine { hinv with
        kept := hkept
        receiver := trivial
        estimatedMsgTs := ?_
        stamps := ?_ }
      · simp [History.add]
      · simpa [History.add, Receiver.unstamped] using hstamps
  · cases hs

theorem Inv.loadRead (hinv : Inv h s)
    (hs : receive lidarHandler valid s .loadRead = some (s', o)) : Inv (h.add o) s' := by
  have hkept := hinv.kept
  have hstamps := hinv.stamps
  have hroom := hinv.room
  unfold receive at hs
  dsimp only at hs
  split at hs
  · rename_i hcomplete
    cases hs
    rw [hcomplete] at hkept hstamps
    have hwrites : h.writes + 1 = h.kept.length := hkept.symm
    have hle : h.writes ≤ h.reads + 8 := by omega
    exact { hinv with
      kept := hkept
      stamps := hstamps
      receiver := ⟨h.reads, le_rfl, hinv.readIdx, hle⟩ }
  · rename_i readIdx hcompared
    cases hs
    rw [hcompared] at hkept hstamps
    have hok := hinv.receiver
    rw [hcompared] at hok
    obtain ⟨i, hi, rfl, hle⟩ := hok
    refine { hinv with kept := hkept, stamps := hstamps, receiver := ?_ }
    show 1 ≤ LockFreeRingBuffer.available _ (LockFreeRingBuffer.size _ _ _ _ _)
    rw [hinv.capacity, hinv.writeIdx, hinv.readIdx]
    exact available_of_loads hi hinv.le hle
  · cases hs

theorem Inv.write (hinv : Inv h s) (hs : receive lidarHandler valid s .write = some (s', o)) :
    Inv (h.add o) s' := by
  unfold receive at hs
  dsimp only at hs
  split at hs
  · rename_i available hcounted
    have hkept := hinv.kept
    have hstamps := hinv.stamps
    have hok := hinv.receiver
    rw [hcounted] at hkept hstamps hok
    have hwrite : s.ring.write 1 available = (⟨10, (h.writes + 1) % 10, h.reads % 10⟩, true) := by
      unfold LockFreeRingBuffer.write
      rw [if_neg (not_lt.mpr hok), hinv.writeIdx, hinv.readIdx, hinv.capacity, Nat.mod_add_mod]
    rw [hwrite] at hs
    cases hs
    exact { hinv with
      capacity := rfl
      writeIdx := rfl
      readIdx := rfl
      kept := hkept
      le := Nat.le_succ_of_le hinv.le
      stamps := hstamps
      receiver := trivial
      processor := hinv.processor.succ }
  · cases hs

theorem Inv.receive {e : Event Packet} (hinv : Inv h s)
    (hs : receive lidarHandler valid s e = some (s', o)) : Inv (h.add o) s' := by
  cases e with
  | packet packet => exact hinv.packet hs
  | batch => exact hinv.batch hs
  | stamp => exact hinv.stamp hs
  | loadRead => exact hinv.loadRead hs
  | write => exact hinv.write hs
  | _ => cases hs

/-! ### The thread of `process_scans` -/

theorem Inv.poll (hinv : Inv h s) (hs : processScans handlers s .poll = some (s', o)) :
    Inv (h.add o) s' := by
  unfold processScans at hs
  dsimp only at hs
  split at hs
  · cases hs
    have hle := hinv.le
    have hempty := hinv.empty_iff
    refine { hinv with processor := ?_ }
    show Processor.Ok _ _ _ (if s.ring.empty then Processor.idle else .handling 0)
    split_ifs with h'
    · exact trivial
    · rw [hempty] at h'
      exact Nat.lt_of_le_of_ne hle h'
  · cases hs

/-- A handler gets the scan that was kept next, and the first time as it was written last. -/
theorem Inv.call (hinv : Inv h s) (hs : processScans handlers s .call = some (s', o)) :
    (∃ scan times, h.kept[h.reads]? = some (scan, times) ∧
      o = .called scan (h.estimates.getLast?.map Prod.fst)) ∧ Inv (h.add o) s' := by
  unfold processScans at hs
  dsimp only at hs
  split at hs
  · rename_i called hhandling
    have hok := hinv.processor
    rw [hhandling] at hok
    have hlt : h.reads < h.writes := hok
    have hkept := hinv.kept
    have hroom := hinv.room
    have hr : h.reads < h.kept.length := by omega
    have hslot := hinv.holds h.reads (by rwa [List.length_map]) (by rwa [List.length_map])
    rw [List.getElem?_map, List.getElem?_eq_getElem hr, hinv.length, ← hinv.readIdx,
      Option.map_some] at hslot
    split_ifs at hs
    rw [hslot, Option.map_some] at hs
    cases hs
    refine ⟨⟨h.kept[h.reads].1, h.kept[h.reads].2, List.getElem?_eq_getElem hr, ?_⟩, ?_⟩
    · rw [hinv.estimatedTs]
    · exact { hinv with processor := hlt }
  · cases hs

/-- A handler that looks at the second time finds what was written last. -/
theorem Inv.look (hinv : Inv h s) (hs : processScans handlers s .look = some (s', o)) :
    h.reads < h.writes ∧ o = .looked (h.stamps.getLast?.map Prod.fst) ∧ Inv (h.add o) s' := by
  unfold processScans at hs
  dsimp only at hs
  split at hs
  · rename_i called hhandling
    have hok := hinv.processor
    rw [hhandling] at hok
    cases hs
    exact ⟨hok, by rw [hinv.estimatedMsgTs], hinv⟩
  · cases hs

/-- How far the read head is to go on, after two loads of the write head. -/
def stepOf (reads writes writeIdx writeIdx' : ℕ) : ℕ :=
  if reads + 8 ≤ writes ∨ writeIdx' < reads % 10 ∧ reads % 10 ≤ writeIdx then 2 else 1

theorem throttled_iff {reads writes writeIdx : ℕ} (hloaded : Loaded reads writes writeIdx)
    (hroom : writes ≤ reads + 9) :
    throttled (LockFreeRingBuffer.size 10 writeIdx (reads % 10) (writes % 10) (reads % 10)) 10 =
        true ↔
      reads + 8 ≤ writes ∨ writes % 10 < reads % 10 ∧ reads % 10 ≤ writeIdx := by
  obtain ⟨i, hr, hi, rfl⟩ := hloaded
  unfold throttled
  rw [decide_eq_true_eq]
  rcases size_of_loads hr hi hroom with ⟨hsize, hround⟩ | ⟨hsize, -, hround⟩
  · rw [hsize]
    omega
  · exact iff_of_true (by omega) (Or.inr hround)

theorem stepOf_spec {reads writes writeIdx : ℕ} (hloaded : Loaded reads writes writeIdx)
    (hroom : writes ≤ reads + 9) :
    1 ≤ stepOf reads writes writeIdx (writes % 10) ∧
      stepOf reads writes writeIdx (writes % 10) ≤ 2 ∧
      reads + stepOf reads writes writeIdx (writes % 10) ≤ writes := by
  obtain ⟨i, hr, hi, rfl⟩ := hloaded
  unfold stepOf
  rcases size_of_loads hr hi hroom with ⟨-, hround⟩ | ⟨-, htwo, -⟩
  · split_ifs <;> omega
  · split_ifs <;> omega

/-- What the loads of the write head come to. -/
theorem Inv.loadWrite (hinv : Inv h s)
    (hs : processScans handlers s .loadWrite = some (s', o)) :
    (o = .silent ∨ ∃ writeIdx, o = .throttle writeIdx (h.writes % 10)
      (stepOf h.reads h.writes writeIdx (h.writes % 10)) ∧ Loaded h.reads h.writes writeIdx) ∧
    Inv (h.add o) s' := by
  have hroom := hinv.writes_le
  have hok := hinv.processor
  unfold processScans at hs
  dsimp only at hs
  split at hs
  · rename_i called hhandling
    rw [hhandling] at hok
    split_ifs at hs
    cases hs
    exact ⟨Or.inl rfl, { hinv with processor := ⟨h.writes, hok, le_rfl, hinv.writeIdx⟩ }⟩
  · rename_i writeIdx hthrottling
    rw [hthrottling] at hok
    have hloaded : Loaded h.reads h.writes writeIdx := hok
    have hstep : (if throttled (LockFreeRingBuffer.size s.ring.capacity writeIdx s.ring.readIdx
        s.ring.writeIdx s.ring.readIdx) s.ring.capacity then 2 else 1) =
        stepOf h.reads h.writes writeIdx (h.writes % 10) := by
      rw [hinv.capacity, hinv.writeIdx, hinv.readIdx]
      exact if_congr (throttled_iff hloaded hroom) rfl rfl
    rw [hstep, hinv.writeIdx] at hs
    cases hs
    exact ⟨Or.inr ⟨writeIdx, rfl, hloaded⟩,
      { hinv with processor := ⟨rfl, stepOf_spec hloaded hroom⟩ }⟩
  · rename_i readStep hreading
    rw [hreading] at hok
    cases hs
    have hlt : h.reads < h.writes := by
      obtain ⟨-, hpos, -, hle⟩ := hok
      omega
    exact ⟨Or.inl rfl, { hinv with processor := ⟨hok, h.writes, hlt, le_rfl, hinv.writeIdx⟩ }⟩
  · rename_i readStep writeIdx hcounting
    rw [hcounting] at hok
    obtain ⟨hsteps, i, hr, hi, rfl⟩ := hok
    cases hs
    refine ⟨Or.inl rfl, { hinv with processor := ⟨hsteps, ?_⟩ }⟩
    obtain ⟨-, -, htwo, hle⟩ := hsteps
    rw [hinv.capacity, hinv.writeIdx, hinv.readIdx]
    rcases size_of_loads hr hi hroom with ⟨hsize, -⟩ | ⟨hsize, -⟩ <;> omega
  · cases hs

/-- The read head is set on as it was decided. -/
theorem Inv.read (hinv : Inv h s) (hs : processScans handlers s .read = some (s', o)) :
    (∃ n, h.decided = some n ∧ o = .advanced n) ∧ Inv (h.add o) s' := by
  have hok := hinv.processor
  have hroom := hinv.room
  unfold processScans at hs
  dsimp only at hs
  split at hs
  · rename_i readStep size hcounted
    rw [hcounted] at hok
    obtain ⟨⟨hdecided, hpos, -, hle⟩, hsize⟩ := hok
    have hread : s.ring.read readStep size =
        (⟨10, h.writes % 10, (h.reads + readStep) % 10⟩, true) := by
      unfold LockFreeRingBuffer.read
      rw [if_neg (not_lt.mpr hsize), hinv.writeIdx, hinv.readIdx, hinv.capacity, Nat.mod_add_mod]
    rw [hread] at hs
    cases hs
    refine ⟨⟨readStep, hdecided, rfl⟩, { hinv with
      capacity := rfl
      writeIdx := rfl
      readIdx := rfl
      le := hle
      room := ?_
      receiver := hinv.receiver.mono (Nat.le_add_right _ _)
      processor := trivial }⟩
    show h.kept.length ≤ h.reads + readStep + 9
    omega
  · cases hs

theorem Inv.processScans {e : Event Packet} (hinv : Inv h s)
    (hs : processScans handlers s e = some (s', o)) : Inv (h.add o) s' := by
  cases e with
  | poll => exact hinv.poll hs
  | call => exact (hinv.call hs).2
  | look => exact (hinv.look hs).2.2
  | loadWrite => exact (hinv.loadWrite hs).2
  | read => exact (hinv.read hs).2
  | _ => cases hs

/-- **Step lemma**: a thread at a time. -/
theorem Inv.step {e : Event Packet} (hinv : Inv h s)
    (hs : step lidarHandler valid handlers s e = some (s', o)) : Inv (h.add o) s' := by
  cases e with
  | packet | batch | stamp | loadRead | write =>
    dsimp only [LidarPacketHandler.step] at hs
    exact hinv.receive hs
  | poll | call | look | loadWrite | read =>
    dsimp only [LidarPacketHandler.step] at hs
    exact hinv.processScans hs

end Invariant

/-! ### Runs -/

section Runs

variable {Scan Ts MsgTs Batcher Packet : Type}
  {lidarHandler : Batcher → Packet → Scan → Batcher × Scan × Option (Ts × MsgTs)}
  {valid : Scan → Bool} {handlers : ℕ} {scan : Scan} {batcher : Batcher}
  {tr : Trace Scan Ts MsgTs Packet} {s : State Scan Ts MsgTs Batcher Packet}

/-- **Run lemma**. -/
theorem inv_of_reaches (h : (machine lidarHandler valid handlers scan batcher).Reaches tr s) :
    Inv (history tr) s := by
  refine Machine.Run.invariant (I := fun tr s => Inv (history tr) s) ?_ ?_ h
  · exact {
      capacity := rfl
      length := List.length_replicate
      writeIdx := rfl
      readIdx := rfl
      kept := rfl
      le := le_rfl
      room := Nat.zero_le _
      holds := Circular.holds_nil _ _
      estimatedTs := rfl
      estimatedMsgTs := rfl
      estimates := rfl
      stamps := rfl
      receiver := trivial
      processor := trivial }
  · rintro tr s e s' o - hinv - hs
    rw [history_concat]
    exact hinv.step hs

/-- The state in which a step of a run was made. -/
theorem exists_step (h : (machine lidarHandler valid handlers scan batcher).Reaches tr s)
    {pre : Trace Scan Ts MsgTs Packet} {e : Event Packet} {o : Output Scan Ts MsgTs}
    (hp : pre ++ [(e, o)] <+: tr) :
    ∃ s₀ s₁, Inv (history pre) s₀ ∧ step lidarHandler valid handlers s₀ e = some (s₁, o) := by
  obtain ⟨s₁, hrun⟩ := h.of_prefix hp
  obtain ⟨s₀, hpre, -, hs⟩ := hrun.last_step
  exact ⟨s₀, s₁, inv_of_reaches hpre, hs⟩

theorem exists_call (h : (machine lidarHandler valid handlers scan batcher).Reaches tr s)
    {pre : Trace Scan Ts MsgTs Packet} {scan' : Scan} {ts : Option Ts}
    (hp : pre ++ [(.call, .called scan' ts)] <+: tr) :
    ∃ s₀ : State Scan Ts MsgTs Batcher Packet, Inv (history pre) s₀ ∧
      ts = (history pre).estimates.getLast?.map Prod.fst ∧
      ∃ own, (history pre).kept[(history pre).reads]? = some (scan', own) := by
  obtain ⟨s₀, s₁, hinv, hs⟩ := exists_step h hp
  have hs : processScans handlers s₀ .call = some (s₁, .called scan' ts) := hs
  obtain ⟨⟨scan₀, own, hget, hout⟩, -⟩ := hinv.call hs
  cases hout
  exact ⟨s₀, hinv, rfl, own, hget⟩

theorem exists_look (h : (machine lidarHandler valid handlers scan batcher).Reaches tr s)
    {pre : Trace Scan Ts MsgTs Packet} {msgTs : Option MsgTs}
    (hp : pre ++ [(.look, .looked msgTs)] <+: tr) :
    ∃ s₀ : State Scan Ts MsgTs Batcher Packet, Inv (history pre) s₀ ∧
      msgTs = (history pre).stamps.getLast?.map Prod.fst ∧
      (history pre).reads < (history pre).writes := by
  obtain ⟨s₀, s₁, hinv, hs⟩ := exists_step h hp
  have hs : processScans handlers s₀ .look = some (s₁, .looked msgTs) := hs
  obtain ⟨hlt, hout, -⟩ := hinv.look hs
  cases hout
  exact ⟨s₀, hinv, rfl, hlt⟩

/-- **The scans that are handed out.**  However the loads and the writes of the two threads are
interleaved, the handlers get the scan that was kept next, whole, with the first time as it was
written last, and find the second time as it was written last.  The reader goes on by one scan, and
by two if eight wait or if the write head came round between the two loads of `size`; it never goes
past the write head, and the scan that is being batched is never the one that is locked. -/
theorem handled_kept (h : (machine lidarHandler valid handlers scan batcher).Reaches tr s) :
    (∀ pre scan' ts, pre ++ [(.call, .called scan' ts)] <+: tr →
      ts = (history pre).estimates.getLast?.map Prod.fst ∧
        ∃ own, (history pre).kept[(history pre).reads]? = some (scan', own)) ∧
      (∀ pre msgTs, pre ++ [(.look, .looked msgTs)] <+: tr →
        msgTs = (history pre).stamps.getLast?.map Prod.fst) ∧
      (∀ pre writeIdx writeIdx' n, pre ++ [(.loadWrite, .throttle writeIdx writeIdx' n)] <+: tr →
        n = stepOf (history pre).reads (history pre).writes writeIdx writeIdx' ∧
          writeIdx' = (history pre).writes % 10 ∧
          Loaded (history pre).reads (history pre).writes writeIdx ∧
          (history pre).reads + n ≤ (history pre).writes) ∧
      (∀ pre n, pre ++ [(.read, .advanced n)] <+: tr → (history pre).decided = some n) ∧
      (s.processor ≠ .idle → s.ring.readIdx ≠ s.ring.writeIdx) := by
  refine ⟨fun pre scan' ts hp => ?_, fun pre msgTs hp => ?_, fun pre writeIdx writeIdx' n hp => ?_,
    fun pre n hp => ?_, (inv_of_reaches h).heads_ne⟩
  · obtain ⟨_, -, hts, hget⟩ := exists_call h hp
    exact ⟨hts, hget⟩
  · obtain ⟨_, -, hmsgTs, -⟩ := exists_look h hp
    exact hmsgTs
  · obtain ⟨s₀, s₁, hinv, hs⟩ := exists_step h hp
    have hs : processScans handlers s₀ .loadWrite =
      some (s₁, .throttle writeIdx writeIdx' n) := hs
    obtain ⟨hout | ⟨i, hout, hloaded⟩, -⟩ := hinv.loadWrite hs
    · cases hout
    · cases hout
      exact ⟨rfl, rfl, hloaded, (stepOf_spec hloaded hinv.writes_le).2.2⟩
  · obtain ⟨s₀, s₁, hinv, hs⟩ := exists_step h hp
    have hs : processScans handlers s₀ .read = some (s₁, .advanced n) := hs
    obtain ⟨⟨m, hdecided, hout⟩, -⟩ := hinv.read hs
    cases hout
    exact hdecided

/-- A handler that takes every packet for a scan, and the packet for both times of it. -/
def everyPacket (batcher : Unit) (packet _scan : ℕ) : Unit × ℕ × Option (ℕ × ℕ) :=
  (batcher, packet, some (packet, packet))

/-- A packet, until its scan is written. -/
def writePacket (packet : ℕ) : List (Event ℕ) :=
  [.packet packet, .batch, .stamp, .loadRead, .loadRead, .write]

/-- The write head goes on from 9 to 0 between the two loads, and two scans wait at 8. -/
def round : List (Event ℕ) :=
  (List.range 8).flatMap (fun packet => writePacket packet ++
    [.poll, .call, .loadWrite, .loadWrite, .loadWrite, .loadWrite, .read]) ++
  writePacket 8 ++ [.poll, .call, .loadWrite] ++ writePacket 9 ++ [.loadWrite]

theorem handled_kept_round : ∃ pre s, (machine everyPacket (fun _ => true) 1 0 ()).Reaches
      (pre ++ [(.loadWrite, .throttle 9 0 2)]) s ∧
    (history pre).reads = 8 ∧ (history pre).writes = 10 ∧ 2 = stepOf 8 10 9 0 ∧ Loaded 8 10 9 ∧
    s.ring.readIdx ≠ s.ring.writeIdx := by
  obtain ⟨tr, s, hreach, hreads, hwrites, hlast, hprocessor⟩ := Machine.exists_reaches_of_exec
    (M := machine everyPacket (fun _ => true) 1 0 ())
    (p := fun r => (history r.1.dropLast).reads = 8 ∧ (history r.1.dropLast).writes = 10 ∧
      r.1 = r.1.dropLast ++ [(.loadWrite, .throttle 9 0 2)] ∧ r.2.processor ≠ .idle) round
    (by decide +kernel)
  obtain ⟨-, -, hthrottle, -, hheads⟩ := handled_kept hreach
  obtain ⟨hstep, -, hloaded, -⟩ := hthrottle tr.dropLast 9 0 2 (hlast ▸ List.prefix_refl _)
  rw [hreads, hwrites] at hstep hloaded
  exact ⟨tr.dropLast, s, hlast ▸ hreach, hreads, hwrites, hstep, hloaded, hheads hprocessor⟩

/-- Among different times, the last one is that of an element that was kept exactly if it is the
last that was kept, and was kept itself. -/
theorem getLast_eq_iff {Time : Type} {e : List (Time × Bool)} (hnodup : (e.map Prod.fst).Nodup)
    {r : ℕ} {own : Time} (hown : ((e.filter Prod.snd).map Prod.fst)[r]? = some own) :
    e.getLast?.map Prod.fst = some own ↔
      (e.filter Prod.snd).length = r + 1 ∧ e.getLast?.map Prod.snd = some true := by
  induction e using List.reverseRecOn with
  | nil => cases hown
  | append_singleton init x _ =>
    obtain ⟨time, b⟩ := x
    rw [List.getLast?_concat, Option.map_some, Option.map_some, Option.some_inj, Option.some_inj]
    rw [List.map_append, List.map_singleton, List.nodup_append] at hnodup
    have hdisjoint : time ∉ init.map Prod.fst := fun hmem =>
      hnodup.2.2 time hmem time List.mem_cons_self rfl
    rw [List.filter_append, List.map_append] at hown
    rw [List.filter_append, List.length_append]
    rcases Nat.lt_or_ge r ((init.filter Prod.snd).map Prod.fst).length with hold | hnew
    · rw [List.getElem?_append_left hold] at hown
      have hmem : own ∈ init.map Prod.fst :=
        List.map_subset _ List.filter_sublist.subset (List.mem_of_getElem? hown)
      rw [List.length_map] at hold
      have hne : time ≠ own := fun heq => hdisjoint (heq ▸ hmem)
      refine iff_of_false hne fun ⟨hlength, hb⟩ => ?_
      dsimp only at hb
      subst hb
      rw [List.filter_singleton] at hlength
      simp at hlength
      omega
    · rw [List.getElem?_append_right hnew] at hown
      rw [List.length_map] at hnew hown
      cases b with
      | false => cases hown
      | true =>
        have hzero : r - (init.filter Prod.snd).length = 0 := by
          by_contra hne
          rw [List.getElem?_eq_none (by simp; omega)] at hown
          cases hown
        rw [hzero] at hown
        cases hown
        refine iff_of_true rfl ⟨?_, rfl⟩
        show (init.filter Prod.snd).length + 1 = r + 1
        omega

/-- **When a scan is handed out with its own times.**  If no two scans are given one time, the
first time that a handler gets with a scan is the one that was estimated for it exactly if no other
scan has been completed since, be it kept or not; and the second one that it finds is exactly if no
other scan has been stamped. -/
theorem handled_time_iff (h : (machine lidarHandler valid handlers scan batcher).Reaches tr s)
    (hestimates : ((history tr).estimates.map Prod.fst).Nodup)
    (hstamps : ((history tr).stamps.map Prod.fst).Nodup) :
    (∀ pre scan' ts, pre ++ [(.call, .called scan' ts)] <+: tr →
      ∃ own, (history pre).kept[(history pre).reads]? = some (scan', own) ∧
        (ts = some own.1 ↔ (history pre).kept.length = (history pre).reads + 1 ∧
          (history pre).estimates.getLast?.map Prod.snd = some true)) ∧
      ∀ pre msgTs, pre ++ [(.look, .looked msgTs)] <+: tr →
        ∃ scan' own, (history pre).kept[(history pre).reads]? = some (scan', own) ∧
          (msgTs = some own.2 ↔
            ((history pre).stamps.filter Prod.snd).length = (history pre).reads + 1 ∧
              (history pre).stamps.getLast?.map Prod.snd = some true) := by
  refine ⟨fun pre scan' ts hp => ?_, fun pre msgTs hp => ?_⟩
  · obtain ⟨s₀, hinv, rfl, own, hget⟩ := exists_call h hp
    have hsub := (times_mono ((List.prefix_append _ _).trans hp)).1.map Prod.fst
    have hlength : ((history pre).estimates.filter Prod.snd).length =
        (history pre).kept.length := by
      have hmap := congrArg List.length hinv.estimates
      rwa [List.length_map, List.length_map] at hmap
    refine ⟨own, hget, ?_⟩
    rw [← hlength]
    refine getLast_eq_iff (hestimates.sublist hsub.sublist) ?_
    rw [hinv.estimates, List.getElem?_map, hget]
    rfl
  · obtain ⟨s₀, hinv, rfl, hlt⟩ := exists_look h hp
    have hsub := (times_mono ((List.prefix_append _ _).trans hp)).2.map Prod.fst
    have hkept := hinv.kept
    have hr : (history pre).reads < (history pre).kept.length := by omega
    have hget := List.getElem?_eq_getElem hr
    refine ⟨_, _, hget, getLast_eq_iff (hstamps.sublist hsub.sublist) ?_⟩
    rw [← List.getElem?_append_left (hinv.lt_length_stamps hlt), hinv.stamps, List.getElem?_map,
      hget]
    rfl

/-- A scan that was handed out is looked at when the next one is complete. -/
def late : List (Event ℕ) :=
  writePacket 1 ++ [.poll, .call, .packet 2, .batch, .stamp, .look]

theorem handled_time_iff_late : ∃ pre s, (machine everyPacket (fun _ => true) 1 0 ()).Reaches
      (pre ++ [(.look, .looked (some 2))]) s ∧
    (Event.call, Output.called 1 (some 1)) ∈ pre ∧ (history pre).kept = [(1, 1, 1), (2, 2, 2)] ∧
    (history pre).reads = 0 ∧ ∃ scan own, (history pre).kept[0]? = some (scan, own) ∧
      ¬ some 2 = some own.2 := by
  obtain ⟨tr, s, hreach, hestimates, hstamps, hcalled, hkept, hreads, hlength, hlast⟩ :=
    Machine.exists_reaches_of_exec (M := machine everyPacket (fun _ => true) 1 0 ())
      (p := fun r => ((history r.1).estimates.map Prod.fst).Nodup ∧
        ((history r.1).stamps.map Prod.fst).Nodup ∧
        (Event.call, Output.called 1 (some 1)) ∈ r.1.dropLast ∧
        (history r.1.dropLast).kept = [(1, 1, 1), (2, 2, 2)] ∧ (history r.1.dropLast).reads = 0 ∧
        ((history r.1.dropLast).stamps.filter Prod.snd).length = 2 ∧
        r.1 = r.1.dropLast ++ [(.look, .looked (some 2))]) late (by decide +kernel)
  obtain ⟨scan, own, hget, hiff⟩ := (handled_time_iff hreach hestimates hstamps).2 tr.dropLast
    (some 2) (hlast ▸ List.prefix_refl _)
  rw [hreads] at hget hiff
  refine ⟨tr.dropLast, s, hlast ▸ hreach, hcalled, hkept, hreads, scan, own, hget, fun heq => ?_⟩
  have hone := (hiff.mp heq).1
  rw [hlength] at hone
  cases hone

end Runs

end RoverSwarm.LidarPacketHandler
