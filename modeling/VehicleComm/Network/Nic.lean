import VehicleComm.Network.Frame

/-!
# The network interface

`nic.h`. A NIC has a pool of buffers, the stack of the free ones, and the two functions through
which the layer above reads and writes the quadrant of a packet. `alloc` takes a buffer off the
stack and writes the Ethernet header; `send` stamps the quadrant, hands the frame to the engine and
puts the buffer back, and is cut at the points where other threads can run in between (`SendPhase`).

Of the engine `send` uses only that `engine_send` returns, with the number of bytes or the error of
`sendto`: `NIC::send` counts the frame in the first case and frees the buffer in both. Whether the
medium took the frame is a matter of the step that hands it over (`Channel.Protocol`).

Left out: the statistics and the interface name. `detect_quadrant_change`, which asks for a
synchronisation request, is in `Network.QuadrantChange`; it touches none of the fields here.
-/

set_option autoImplicit false
set_option relaxedAutoImplicit false

namespace VehicleComm.Network

open Library

/-- `NIC::BUFFER_SIZE`. -/
def bufferSize : ℕ := 100

/-- `Buffer<Ethernet::Frame>`. -/
structure Buffer where
  data : Frame
  size : ℕ

/-- What `engine_send` is given of a buffer: the header and `size` bytes of payload. -/
def Buffer.wire (buffer : Buffer) : List UInt8 := buffer.data.bytes.take (headerSize + buffer.size)

theorem Buffer.length_wire {buffer : Buffer} (hsize : buffer.size ≤ mtu) :
    buffer.wire.length = headerSize + buffer.size := by
  rw [wire, List.length_take, buffer.data.length_bytes]
  rw [mtu] at hsize
  rw [headerSize, frameSize]
  omega

theorem Buffer.length_wire_le (buffer : Buffer) : buffer.wire.length ≤ frameSize := by
  rw [wire, List.length_take, buffer.data.length_bytes]
  exact min_le_right _ _

/-- `NIC<Engine>`. -/
structure Nic where
  address : Address
  buffers : Fin bufferSize → Buffer
  freeList : List (Fin bufferSize)
  readQuadrant : List UInt8 → UInt8
  writeQuadrant : Frame → UInt8 → Frame

/-- `_read_quadrant` before `setup_read_quadrant`. -/
def defaultReadQuadrant (_ : List UInt8) : UInt8 := 0xFF

/-- `_write_quadrant` before `setup_write_quadrant`. -/
def defaultWriteQuadrant (frame : Frame) (_ : UInt8) : Frame := frame

/-- A NIC after its constructor. The memory of the buffers is whatever it was. -/
def Nic.create (address : Address) (buffers : Fin bufferSize → Buffer) : Nic where
  address := address
  buffers := buffers
  freeList := (List.finRange bufferSize).reverse
  readQuadrant := defaultReadQuadrant
  writeQuadrant := defaultWriteQuadrant

def Nic.setBuffer (nic : Nic) (b : Fin bufferSize) (buffer : Buffer) : Nic :=
  { nic with buffers := Function.update nic.buffers b buffer }

/-- The writes of one thread to the frame of a buffer. -/
def Nic.setData (nic : Nic) (b : Fin bufferSize) (frame : Frame) : Nic :=
  nic.setBuffer b { nic.buffers b with data := frame }

/-- `NIC::alloc_buf`. -/
def Nic.allocBuf (nic : Nic) : Option (Nic × Fin bufferSize) :=
  match nic.freeList with
  | [] => none
  | b :: rest => some ({ nic with freeList := rest }, b)

/-- `NIC::alloc`. -/
def Nic.alloc (nic : Nic) (dst : Address) (protocol : UInt16) (size : ℕ) :
    Option (Nic × Fin bufferSize) :=
  if mtu < size then none
  else
    nic.allocBuf.map fun taken ↦
      (taken.1.setBuffer taken.2
        ⟨(nic.buffers taken.2).data.setHeader dst nic.address protocol, size⟩, taken.2)

/-- `NIC::free`. -/
def Nic.free (nic : Nic) (b : Fin bufferSize) : Nic := { nic with freeList := b :: nic.freeList }

/-- Where a thread is in `NIC::send` of a buffer: before the quadrant is read and written, before
`engine_send`, and before the buffer is freed. -/
inductive SendPhase
  | stamp (b : Fin bufferSize)
  | transmit (b : Fin bufferSize) (reading : UInt8)
  | release (b : Fin bufferSize)
deriving DecidableEq

def SendPhase.buffer : SendPhase → Fin bufferSize
  | .stamp b | .transmit b _ | .release b => b

def SendPhase.remaining : SendPhase → ℕ
  | .stamp _ => 3
  | .transmit _ _ => 2
  | .release _ => 1

/-- The next step of `NIC::send`: the NIC after it, and how the send goes on. `reading` is what
`engine_current_quadrant` returns. -/
def Nic.sendStep (nic : Nic) (reading : UInt8) : SendPhase → Nic × Option SendPhase
  | .stamp b =>
    (nic.setData b (nic.writeQuadrant (nic.buffers b).data reading), some (.transmit b reading))
  | .transmit b _ => (nic, some (.release b))
  | .release b => (nic.free b, none)

@[simp] theorem Nic.setBuffer_buffers_self (nic : Nic) (b : Fin bufferSize) (buffer : Buffer) :
    (nic.setBuffer b buffer).buffers b = buffer :=
  Function.update_self ..

theorem Nic.setBuffer_buffers_of_ne (nic : Nic) {b other : Fin bufferSize} (buffer : Buffer)
    (hne : other ≠ b) : (nic.setBuffer b buffer).buffers other = nic.buffers other :=
  Function.update_of_ne hne ..

@[simp] theorem Nic.setBuffer_address (nic : Nic) (b : Fin bufferSize) (buffer : Buffer) :
    (nic.setBuffer b buffer).address = nic.address := rfl

@[simp] theorem Nic.setBuffer_freeList (nic : Nic) (b : Fin bufferSize) (buffer : Buffer) :
    (nic.setBuffer b buffer).freeList = nic.freeList := rfl

@[simp] theorem Nic.setBuffer_readQuadrant (nic : Nic) (b : Fin bufferSize) (buffer : Buffer) :
    (nic.setBuffer b buffer).readQuadrant = nic.readQuadrant := rfl

@[simp] theorem Nic.setBuffer_writeQuadrant (nic : Nic) (b : Fin bufferSize) (buffer : Buffer) :
    (nic.setBuffer b buffer).writeQuadrant = nic.writeQuadrant := rfl

@[simp] theorem Nic.free_buffers (nic : Nic) (b : Fin bufferSize) :
    (nic.free b).buffers = nic.buffers := rfl

@[simp] theorem Nic.free_freeList (nic : Nic) (b : Fin bufferSize) :
    (nic.free b).freeList = b :: nic.freeList := rfl

/-- The NIC has the address and the functions for the quadrant that it had. -/
structure Nic.SameSetup (nic later : Nic) : Prop where
  address : later.address = nic.address
  reads : later.readQuadrant = nic.readQuadrant
  writes : later.writeQuadrant = nic.writeQuadrant

theorem Nic.SameSetup.refl (nic : Nic) : nic.SameSetup nic := ⟨rfl, rfl, rfl⟩

theorem Nic.SameSetup.trans {nic later last : Nic} (hfirst : nic.SameSetup later)
    (hsecond : later.SameSetup last) : nic.SameSetup last :=
  ⟨hsecond.address.trans hfirst.address, hsecond.reads.trans hfirst.reads,
    hsecond.writes.trans hfirst.writes⟩

/-- `alloc_buf` takes the top of the stack. -/
theorem Nic.allocBuf_eq_some_iff {nic taken : Nic} {b : Fin bufferSize} :
    nic.allocBuf = some (taken, b) ↔
      ∃ rest, nic.freeList = b :: rest ∧ taken = { nic with freeList := rest } := by
  unfold allocBuf
  cases hfree : nic.freeList with
  | nil => simp
  | cons top rest =>
    simp only [Option.some.injEq, Prod.mk.injEq, List.cons.injEq]
    constructor
    · rintro ⟨rfl, rfl⟩
      exact ⟨rest, ⟨rfl, rfl⟩, rfl⟩
    · rintro ⟨others, ⟨rfl, rfl⟩, rfl⟩
      exact ⟨rfl, rfl⟩

/-- `alloc` takes the top of the stack and writes the header into it, for a payload that fits. -/
theorem Nic.alloc_eq_some_iff {nic taken : Nic} {dst : Address} {protocol : UInt16} {size : ℕ}
    {b : Fin bufferSize} :
    nic.alloc dst protocol size = some (taken, b) ↔
      size ≤ mtu ∧ ∃ rest, nic.freeList = b :: rest ∧ taken =
        { nic with freeList := rest }.setBuffer b
          ⟨(nic.buffers b).data.setHeader dst nic.address protocol, size⟩ := by
  unfold alloc
  split_ifs with hsize
  · simp [hsize]
  · unfold allocBuf
    cases hfree : nic.freeList with
    | nil => simp
    | cons top rest =>
      simp only [Option.map_some, Option.some.injEq, Prod.mk.injEq, List.cons.injEq]
      constructor
      · rintro ⟨rfl, rfl⟩
        exact ⟨not_lt.mp hsize, rest, ⟨rfl, rfl⟩, rfl⟩
      · rintro ⟨-, others, ⟨rfl, rfl⟩, rfl⟩
        exact ⟨rfl, rfl⟩

/-- The buffer `b` was taken off the stack, and only its memory may have been written. -/
structure Nic.Takes (nic later : Nic) (b : Fin bufferSize) : Prop where
  setup : nic.SameSetup later
  free : nic.freeList = b :: later.freeList
  others : ∀ y, y ≠ b → later.buffers y = nic.buffers y

theorem Nic.Takes.setBuffer {nic later : Nic} {b : Fin bufferSize} (h : nic.Takes later b)
    (buffer : Buffer) : nic.Takes (later.setBuffer b buffer) b where
  setup := h.setup.trans ⟨rfl, rfl, rfl⟩
  free := h.free
  others y hy := (Nic.setBuffer_buffers_of_ne _ _ hy).trans (h.others y hy)

theorem Nic.takes_allocBuf {nic taken : Nic} {b : Fin bufferSize}
    (halloc : nic.allocBuf = some (taken, b)) : nic.Takes taken b := by
  obtain ⟨rest, hfree, rfl⟩ := Nic.allocBuf_eq_some_iff.mp halloc
  exact ⟨⟨rfl, rfl, rfl⟩, hfree, fun _ _ ↦ rfl⟩

theorem Nic.takes_alloc {nic taken : Nic} {dst : Address} {protocol : UInt16} {size : ℕ}
    {b : Fin bufferSize} (halloc : nic.alloc dst protocol size = some (taken, b)) :
    nic.Takes taken b := by
  obtain ⟨-, rest, hfree, rfl⟩ := Nic.alloc_eq_some_iff.mp halloc
  exact ⟨⟨rfl, rfl, rfl⟩, hfree, fun _ hy ↦ Nic.setBuffer_buffers_of_ne _ _ hy⟩

/-- `alloc` fails only for a payload that is too large or when no buffer is free. -/
theorem Nic.alloc_eq_none_iff {nic : Nic} {dst : Address} {protocol : UInt16} {size : ℕ} :
    nic.alloc dst protocol size = none ↔ mtu < size ∨ nic.freeList = [] := by
  unfold alloc allocBuf
  split_ifs with hsize
  · simp [hsize]
  · cases hfree : nic.freeList with
    | nil => simp
    | cons top rest => simp [hsize]

/-- A NIC that has a free buffer can take one off its stack. -/
theorem Nic.allocBuf_eq_none_iff {nic : Nic} : nic.allocBuf = none ↔ nic.freeList = [] := by
  unfold allocBuf
  cases hfree : nic.freeList with
  | nil => simp
  | cons top rest => simp

end VehicleComm.Network
