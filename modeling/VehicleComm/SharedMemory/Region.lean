import VehicleComm.Library.Memory

/-!
# The shared memory region

`shm_region.h`: the table of registered processes and the broadcast ring. `m` is the number of
components of the vehicle, so `m + 1` processes are registered, process `0` being the gateway; this
is the `component_count + 1` of `SharedMemoryEngine::create`. The counters `next_write_seq` and
`read_seq` are unsigned 64-bit integers and wrap, and the slot of a sequence number is its remainder
by `SLOT_COUNT`.

What a reader of a slot can see (`SlotRecord`) is the number of the writer, the flags and the first
`frame_size` bytes of the frame; behind them are bytes of earlier frames, so a slot is compared by
its record and not by its memory. The functions are the sections of the engine that run with the
mutex held, each as one function of the region.

Left out: `magic`, `port` and `slot` of an entry, which no function of the ring reads after the
region is attached (the slot of an entry is its index).
-/

set_option autoImplicit false
set_option relaxedAutoImplicit false

namespace VehicleComm.SharedMemory

open Library

/-- `SHM::SLOT_COUNT`. -/
def slotCount : ℕ := 100

/-- `SHM::MAX_COMPONENTS`. -/
def maxComponents : ℕ := 100

/-- `SHM::FRAME_SIZE`, the size of an `Ethernet::Frame`. -/
def shmFrameSize : ℕ := 1514

/-- `SHM::GATEWAY_WRITER`, the writer id of the gateway. -/
def gatewayWriter : ℕ := 0xFFFE

/-- `SHM::DELIVER_TO_COMPONENTS`. -/
def deliverToComponents : UInt16 := 0x0001

/-- `SHM::DELIVER_TO_GATEWAY`. -/
def deliverToGateway : UInt16 := 0x0002

/-- A counter of type `uint64_t` after an increment. -/
def increment64 (counter : ℕ) : ℕ := (counter + 1) % 2 ^ 64

theorem increment64_of_lt {counter : ℕ} (hbound : counter + 1 < 2 ^ 64) :
    increment64 counter = counter + 1 :=
  Nat.mod_eq_of_lt hbound

/-- `SHM::Component_Entry`. -/
structure ComponentEntry where
  active : Bool
  readSeq : ℕ

/-- `SHM::Broadcast_Slot`. -/
structure BroadcastSlot where
  writerSlot : ℕ
  flags : UInt16
  frameSize : ℕ
  frame : List UInt8

/-- The arguments of `write_slot`. The caller's buffer holds the bytes that are copied. -/
structure WriteRequest where
  frame : List UInt8
  size : ℕ
  writerSlot : ℕ
  flags : UInt16
  readable : min size shmFrameSize ≤ frame.length
deriving DecidableEq

/-- What one write makes visible, and what a reader of a slot can see: the fields of the slot and
the first `frameSize` bytes of its frame. -/
structure SlotRecord where
  writerSlot : ℕ
  flags : UInt16
  frameSize : ℕ
  bytes : List UInt8
deriving DecidableEq

def BroadcastSlot.record (slot : BroadcastSlot) : SlotRecord :=
  ⟨slot.writerSlot, slot.flags, slot.frameSize, slot.frame.take slot.frameSize⟩

/-- What the caller of `write_slot` asked to publish. -/
def WriteRequest.record (request : WriteRequest) : SlotRecord :=
  ⟨request.writerSlot, request.flags, min request.size shmFrameSize,
    request.frame.take (min request.size shmFrameSize)⟩

/-- The assignments of `write_slot` to a slot. The bytes of the slot past the new frame keep the
content of an earlier frame. -/
def BroadcastSlot.write (slot : BroadcastSlot) (request : WriteRequest) : BroadcastSlot where
  writerSlot := request.writerSlot
  flags := request.flags
  frameSize := min request.size shmFrameSize
  frame := memcpy slot.frame request.frame (min request.size shmFrameSize)

/-- A reader of a written slot sees the write and nothing of the earlier frame. -/
theorem BroadcastSlot.record_write (slot : BroadcastSlot) (request : WriteRequest) :
    (slot.write request).record = request.record := by
  simp only [BroadcastSlot.record, BroadcastSlot.write, WriteRequest.record,
    take_memcpy request.readable]

/-- `SHM::Region`, with `SHM::Broadcast_Ring` unfolded. -/
structure Region (m : ℕ) where
  gatewayActive : Bool
  components : Fin (m + 1) → ComponentEntry
  nextWriteSeq : ℕ
  slots : Fin slotCount → BroadcastSlot

/-- `seq % SHM::SLOT_COUNT`. -/
def slotIndex (seq : ℕ) : Fin slotCount := ⟨seq % slotCount, Nat.mod_lt _ (by decide)⟩

theorem slotIndex_ne {first second : ℕ} (hlt : first < second)
    (hnear : second < first + slotCount) : slotIndex first ≠ slotIndex second := by
  intro heq
  have hmod : first % 100 = second % 100 := congrArg Fin.val heq
  simp only [slotCount] at hnear
  omega

variable {m : ℕ}

/-- `SHM::GATEWAY_SLOT`. -/
def gatewaySlot : Fin (m + 1) := 0

/-- The `read_seq` of every registered process. -/
def Region.readSeq (region : Region m) (i : Fin (m + 1)) : ℕ := (region.components i).readSeq

/-- The part of `write_slot` between its two mutex operations, without the posts to the readers. -/
def Region.publish (region : Region m) (request : WriteRequest) : Region m :=
  let seq := region.nextWriteSeq
  { region with
    nextWriteSeq := increment64 seq
    slots := Function.update region.slots (slotIndex seq)
      ((region.slots (slotIndex seq)).write request) }

/-- `_region->components[_slot].read_seq++`. -/
def Region.advance (region : Region m) (i : Fin (m + 1)) : Region m :=
  { region with
    components := Function.update region.components i
      { region.components i with readSeq := increment64 (region.readSeq i) } }

/-- The part of `engine_init` under the mutex. -/
def Region.attach (region : Region m) (i : Fin (m + 1)) : Region m :=
  { region with
    gatewayActive := if i = gatewaySlot then true else region.gatewayActive
    components := Function.update region.components i ⟨true, region.nextWriteSeq⟩ }

/-- The part of `engine_close` under the mutex. -/
def Region.detach (region : Region m) (i : Fin (m + 1)) : Region m :=
  if i = gatewaySlot then { region with gatewayActive := false }
  else
    { region with
      components := Function.update region.components i
        { region.components i with active := false } }

/-- The registered process is marked as in use: by `gateway_active` for the gateway, by `active` for
a component. -/
def Region.activeReader (region : Region m) (i : Fin (m + 1)) : Bool :=
  if i = gatewaySlot then region.gatewayActive else (region.components i).active

/-- `least_read_seq_not_me`: the minimum over the other registered processes, starting from the
largest `uint64_t`. -/
def Region.leastReadSeqNotMe (region : Region m) (i : Fin (m + 1)) : ℕ :=
  (List.finRange (m + 1)).foldl
    (fun least j ↦ if j = i then least else min least (region.readSeq j)) (2 ^ 64 - 1)

private theorem le_foldl_least_iff (region : Region m) (i : Fin (m + 1)) (bound : ℕ)
    (others : List (Fin (m + 1))) : ∀ start : ℕ,
      bound ≤ others.foldl
          (fun least j ↦ if j = i then least else min least (region.readSeq j)) start ↔
        bound ≤ start ∧ ∀ j ∈ others, j ≠ i → bound ≤ region.readSeq j := by
  induction others with
  | nil => intro start; simp
  | cons j rest ih =>
    intro start
    rw [List.foldl_cons, ih]
    by_cases hj : j = i
    · simp [hj]
    · simp [hj, and_assoc]

/-- A value is at most `least_read_seq_not_me` when it is at most the `read_seq` of every other
process, and fits in a `uint64_t`. -/
theorem Region.le_leastReadSeqNotMe_iff (region : Region m) (i : Fin (m + 1)) {bound : ℕ}
    (hbound : bound < 2 ^ 64) :
    bound ≤ region.leastReadSeqNotMe i ↔ ∀ j, j ≠ i → bound ≤ region.readSeq j := by
  rw [leastReadSeqNotMe, le_foldl_least_iff]
  constructor
  · rintro ⟨-, hothers⟩ j hj
    exact hothers j (List.mem_finRange j) hj
  · intro hothers
    exact ⟨by omega, fun j _ hj ↦ hothers j hj⟩

@[simp] theorem Region.publish_readSeq (region : Region m) (request : WriteRequest) :
    (region.publish request).readSeq = region.readSeq := rfl

@[simp] theorem Region.publish_nextWriteSeq (region : Region m) (request : WriteRequest) :
    (region.publish request).nextWriteSeq = increment64 region.nextWriteSeq := rfl

@[simp] theorem Region.advance_nextWriteSeq (region : Region m) (i : Fin (m + 1)) :
    (region.advance i).nextWriteSeq = region.nextWriteSeq := rfl

@[simp] theorem Region.advance_slots (region : Region m) (i : Fin (m + 1)) :
    (region.advance i).slots = region.slots := rfl

theorem Region.advance_readSeq (region : Region m) (i : Fin (m + 1)) :
    (region.advance i).readSeq =
      Function.update region.readSeq i (increment64 (region.readSeq i)) := by
  funext j
  by_cases hj : j = i
  · subst hj
    simp [readSeq, advance]
  · simp [readSeq, advance, Function.update_of_ne hj]

@[simp] theorem Region.attach_nextWriteSeq (region : Region m) (i : Fin (m + 1)) :
    (region.attach i).nextWriteSeq = region.nextWriteSeq := rfl

@[simp] theorem Region.attach_slots (region : Region m) (i : Fin (m + 1)) :
    (region.attach i).slots = region.slots := rfl

theorem Region.attach_readSeq (region : Region m) (i : Fin (m + 1)) :
    (region.attach i).readSeq = Function.update region.readSeq i region.nextWriteSeq := by
  funext j
  by_cases hj : j = i
  · subst hj
    simp [readSeq, attach]
  · simp [readSeq, attach, Function.update_of_ne hj]

@[simp] theorem Region.detach_nextWriteSeq (region : Region m) (i : Fin (m + 1)) :
    (region.detach i).nextWriteSeq = region.nextWriteSeq := by
  unfold detach
  split_ifs <;> rfl

@[simp] theorem Region.detach_slots (region : Region m) (i : Fin (m + 1)) :
    (region.detach i).slots = region.slots := by
  unfold detach
  split_ifs <;> rfl

@[simp] theorem Region.detach_readSeq (region : Region m) (i : Fin (m + 1)) :
    (region.detach i).readSeq = region.readSeq := by
  unfold detach
  split_ifs with hgateway
  · rfl
  · funext j
    by_cases hj : j = i
    · subst hj
      simp [readSeq]
    · simp [readSeq, Function.update_of_ne hj]

end VehicleComm.SharedMemory
