import VehicleComm.Channel.BufferClaims

/-!
# The steps of a process keep its buffers in order

Each step of a process keeps who holds which buffer exclusive and what is claimed of the contents
true (`Process.Sound.step`), and what it shows to the outside follows from these claims
(`Process.Sound.event`): a frame that is sent has the header of its NIC, a frame that is forwarded
is the copy of one that arrived and was accepted, a message is made of the frame that arrived.

The steps are taken thread by thread: the receive thread of a NIC, through the handler, the forward
on the other NIC and the delivery to the observers; the constructor; the threads that send; and the
one that takes messages from the queue. A frame that `sendto` refuses leaves the same state behind
as one that it takes, since `NIC::send` frees its buffer either way.
-/

set_option autoImplicit false
set_option relaxedAutoImplicit false

namespace VehicleComm.Channel

open Library Network

variable {τ : Type*} {mac : Address} {arrived : Medium → Incoming → Prop} {constructed : Prop}
  {P P' : Process τ}

/-! ### The contents of buffers -/

/-- A payload read from a buffer is the rest of what is sent of it. -/
theorem slice_wire (buffer : Buffer) :
    slice buffer.data.bytes headerSize buffer.size = buffer.wire.drop headerSize := by
  rw [slice, Buffer.wire, List.drop_take, Nat.add_sub_cancel_left]

theorem Loaded.length {incoming : Incoming} {buffer : Buffer} (h : Loaded incoming buffer) :
    headerSize + buffer.size = incoming.data.length := by
  have hheader := h.header
  rw [h.size]
  omega

theorem Loaded.size_le {incoming : Incoming} {buffer : Buffer} (h : Loaded incoming buffer) :
    buffer.size ≤ mtu := by
  have hfits := incoming.fits
  have hheader := h.header
  rw [h.size]
  rw [headerSize] at hheader ⊢
  rw [frameSize] at hfits
  rw [mtu]
  omega

/-- What `Protocol::update` reads in the memory of the buffer is what arrived. -/
theorem Loaded.forwardsToNetwork {incoming : Incoming} {buffer : Buffer}
    (h : Loaded incoming buffer) :
    forwardsToNetwork buffer.data.bytes = forwardsToNetwork incoming.data := by
  have hwire := h.wire
  rw [Buffer.wire] at hwire
  rw [← hwire, Channel.forwardsToNetwork, Channel.forwardsToNetwork,
    etherSrc_take (Nat.le_add_right _ _), etherDst_take (Nat.le_add_right _ _)]

theorem Loaded.isSptp {incoming : Incoming} {buffer : Buffer} (h : Loaded incoming buffer)
    (hsize : packetHeaderSize ≤ buffer.size) :
    isSptp buffer.data.bytes = isSptp incoming.data := by
  have hwire := h.wire
  rw [Buffer.wire] at hwire
  rw [← hwire, isSptp_take (Nat.add_le_add_left hsize _)]

theorem Loaded.packetQuadrant {incoming : Incoming} {buffer : Buffer} (h : Loaded incoming buffer)
    (hsize : packetHeaderSize ≤ buffer.size) :
    packetQuadrant buffer.data.bytes = packetQuadrant incoming.data := by
  have hwire := h.wire
  rw [Buffer.wire] at hwire
  rw [← hwire, packetQuadrant_take (Nat.add_le_add_left hsize _)]

theorem Loaded.packetDstPort {incoming : Incoming} {buffer : Buffer} (h : Loaded incoming buffer)
    (hlength : headerSize + packetHeaderSize ≤ incoming.data.length) :
    packetDstPort buffer.data.bytes = packetDstPort incoming.data := by
  have hwire := h.wire
  rw [Buffer.wire] at hwire
  rw [← hwire, packetDstPort_take (by rwa [h.length])]

/-- The message of a frame, for a caller with room for `capacity` bytes. -/
def messageOf (data : List UInt8) (capacity : ℕ) : Message where
  fromAddress := etherSrc data
  fromPort := packetSrcPort data
  timestamp := packetTimestamp data
  quadrant := Network.packetQuadrant data
  data := packetData data (min (data.length - (headerSize + packetHeaderSize)) capacity)

/-- `Protocol::receive` of a buffer makes the message of the frame that arrived. -/
theorem Loaded.unpack {incoming : Incoming} {buffer : Buffer} (h : Loaded incoming buffer)
    (hlength : headerSize + packetHeaderSize ≤ incoming.data.length) (capacity : ℕ) :
    unpack buffer capacity = some (messageOf incoming.data capacity) := by
  have hsize : headerSize + packetHeaderSize ≤ headerSize + buffer.size := by rwa [h.length]
  have hpayload : incoming.data.length - (headerSize + packetHeaderSize) =
      buffer.size - packetHeaderSize := by
    rw [← h.length]
    omega
  have hdata : packetData (buffer.data.bytes.take (headerSize + buffer.size))
      (min (buffer.size - packetHeaderSize) capacity) =
        packetData buffer.data.bytes (min (buffer.size - packetHeaderSize) capacity) := by
    rw [headerSize, packetHeaderSize] at hsize
    refine slice_take ?_
    rw [headerSize, packetHeaderSize]
    omega
  have hwire := h.wire
  rw [Buffer.wire] at hwire
  rw [Channel.unpack, if_neg (by omega), messageOf, hpayload, ← hwire,
    etherSrc_take (Nat.le_add_right _ _), packetSrcPort_take hsize, packetTimestamp_take hsize,
    packetQuadrant_take hsize, hdata]

/-- The buffer into which the handler copied the frame. -/
theorem loaded_of_store {incoming : Incoming} (frame : Frame)
    (hheader : headerSize ≤ incoming.data.length)
    (htype : etherType (frame.store 0 incoming.data).bytes = proto) :
    Loaded incoming ⟨frame.store 0 incoming.data, incoming.data.length - headerSize⟩ := by
  have hstart := frame.take_store_zero incoming.fits
  refine ⟨hheader, rfl, ?_, ?_⟩
  · rw [Buffer.wire]
    simp only [Nat.add_sub_cancel' hheader]
    exact hstart
  · have htake : etherType ((frame.store 0 incoming.data).bytes.take incoming.data.length) =
        etherType (frame.store 0 incoming.data).bytes := etherType_take hheader
    rw [hstart] at htake
    rw [htake, htype]

/-- The copy for the network: a header of the gateway and the payload that arrived. -/
theorem wire_forwardToNetwork {raw nic : Nic} {incoming : Incoming} {buffer : Buffer}
    {c : Fin bufferSize} (h : Loaded incoming buffer) (haddress : raw.address = mac)
    (hcopy : forwardToNetwork raw buffer = some (nic, c)) :
    (nic.buffers c).wire = copyBytes mac .shm incoming.data := by
  obtain ⟨⟨taken, b⟩, halloc, hnic⟩ := Option.map_eq_some_iff.mp hcopy
  obtain ⟨-, rest, hfree, rfl⟩ := Nic.alloc_eq_some_iff.mp halloc
  cases hnic
  have hpayload : slice buffer.data.bytes headerSize buffer.size =
      incoming.data.drop headerSize := by rw [slice_wire, h.wire]
  have hlength : (incoming.data.drop headerSize).length = buffer.size := by
    rw [List.length_drop, h.size]
  have hfits := incoming.fits
  have hall := h.length
  simp only [Nic.setData, Nic.setBuffer_buffers_self, Buffer.wire, hpayload, copyBytes]
  rw [← hlength, Frame.take_store_headerSize _ (by rw [hlength]; omega), Frame.take_setHeader,
    haddress]

/-- The copy for the ring: the frame that arrived. -/
theorem wire_forwardToRing {shm nic : Nic} {incoming : Incoming} {buffer : Buffer}
    {c : Fin bufferSize} (h : Loaded incoming buffer)
    (hcopy : forwardToRing shm buffer = some (nic, c)) :
    (nic.buffers c).wire = incoming.data := by
  obtain ⟨⟨taken, b⟩, halloc, hnic⟩ := Option.map_eq_some_iff.mp hcopy
  obtain ⟨-, rest, hfree, rfl⟩ := Nic.alloc_eq_some_iff.mp halloc
  cases hnic
  have hwire : buffer.data.bytes.take incoming.data.length = incoming.data := by
    rw [← h.length]
    exact h.wire
  simp only [Nic.setData, Nic.setBuffer_buffers_self, Buffer.wire, h.length, hwire]
  exact Frame.take_store_zero _ incoming.fits

/-- What a send through the raw socket makes of the bytes. -/
theorem wire_writeQuadrant (buffer : Buffer) (reading : UInt8) :
    Buffer.wire { buffer with data := writeQuadrant buffer.data reading } =
      stampQuadrant buffer.wire reading := by
  rw [Buffer.wire, Buffer.wire, writeQuadrant, Frame.bytes_store, take_overwrite, stampQuadrant]

/-- The quadrant of a packet into which one was written. -/
theorem packetQuadrant_stampQuadrant {bytes : List UInt8} (reading : UInt8)
    (hlength : headerSize + packetHeaderSize ≤ bytes.length) :
    packetQuadrant (stampQuadrant bytes reading) = reading := by
  rw [headerSize, packetHeaderSize] at hlength
  rw [packetQuadrant, stampQuadrant, List.getD_eq_getElem?_getD,
    getElem?_overwrite _ _ _ (by omega), if_pos (by simp)]
  rfl

theorem take_headerSize_stampQuadrant (bytes : List UInt8) (reading : UInt8) :
    (stampQuadrant bytes reading).take headerSize = bytes.take headerSize :=
  take_overwrite_of_le (by rw [headerSize]; omega)

/-- A stamp leaves the packet apart from its quadrant. -/
theorem Carries.stampQuadrant {request : SendRequest} {bytes : List UInt8}
    (h : Carries request bytes) (reading : UInt8) :
    Carries request (stampQuadrant bytes reading) where
  length := by rw [Channel.stampQuadrant, length_overwrite, h.length]
  timestamp := (slice_overwrite_of_disjoint (Or.inl (by omega))).trans h.timestamp
  srcPort := (slice_overwrite_of_disjoint (Or.inl (by omega))).trans h.srcPort
  dstPort := (slice_overwrite_of_disjoint (Or.inl (by omega))).trans h.dstPort
  kind := (slice_overwrite_of_disjoint (Or.inr (by simp))).trans h.kind
  data := (slice_overwrite_of_disjoint (Or.inr (by simp))).trans h.data

theorem Carries.whole {request : SendRequest} {bytes : List UInt8} (h : Carries request bytes) :
    headerSize + packetHeaderSize ≤ bytes.length := by
  rw [h.length]
  omega

/-- The copy that a gateway makes of a packet. -/
theorem Carries.copyBytes {request : SendRequest} {data : List UInt8} (h : Carries request data)
    (mac : Address) (n : Medium) : Carries request (copyBytes mac n data) := by
  cases n with
  | raw => exact h
  | shm =>
    have hread : ∀ start count, headerSize ≤ start →
        slice (Channel.copyBytes mac .shm data) start count = slice data start count :=
      fun start count hafter ↦ slice_append_drop (length_etherHeader _ _ _) hafter
    have hlength := h.length
    constructor
    · rw [Channel.copyBytes, List.length_append, length_etherHeader, List.length_drop]
      omega
    · rw [hread _ _ (by decide), h.timestamp]
    · rw [hread _ _ (by decide), h.srcPort]
    · rw [hread _ _ (by decide), h.dstPort]
    · rw [hread _ _ (by decide), h.kind]
    · rw [hread _ _ (by decide), h.data]

/-- The message of a frame with the packet of a request. -/
theorem Carries.messageOf {request : SendRequest} {data : List UInt8} (h : Carries request data)
    (capacity : ℕ) :
    messageOf data capacity =
      { fromAddress := etherSrc data
        fromPort := request.fromPort
        timestamp := request.stamp
        quadrant := Network.packetQuadrant data
        data := request.data.take capacity } := by
  have hsize : data.length - (headerSize + packetHeaderSize) = request.data.length := by
    rw [h.length]
    omega
  have hdata : packetData data (min request.data.length capacity) = request.data.take capacity := by
    rw [packetData, slice, min_comm, ← List.take_take]
    have hall : (data.drop 28).take request.data.length = request.data := h.data
    rw [hall]
  rw [Channel.messageOf, packetSrcPort_of_slice h.srcPort, packetTimestamp_of_slice h.timestamp,
    hsize, hdata]

/-- A packet of data is not one of the time synchronisation. -/
theorem Carries.isSptp {request : SendRequest} {data : List UInt8} (h : Carries request data)
    (hkind : request.kind = .data) : isSptp data = false := by
  rw [Network.isSptp, packetKind_of_slice h.kind, hkind]
  rfl

/-- A stamp leaves what makes a packet outgoing. -/
theorem Outgoing.stampQuadrant {gateway : Bool} {n : Medium} {request : SendRequest}
    {bytes : List UInt8} (h : Outgoing mac gateway n request bytes) (reading : UInt8) :
    Outgoing mac gateway n request (stampQuadrant bytes reading) where
  packet := h.packet.stampQuadrant reading
  header := by rw [take_headerSize_stampQuadrant, h.header]
  ring := h.ring

/-- The writes of `send_via_nic` to a buffer make the packet of the request. -/
theorem carries_fillPacket (frame : Frame) {request : SendRequest}
    (hsize : packetHeaderSize + request.data.length ≤ mtu) :
    Carries request
      (Buffer.wire ⟨fillPacket frame request, packetHeaderSize + request.data.length⟩) := by
  have hroom := hsize
  rw [packetHeaderSize, mtu] at hroom
  have hport : ∀ port : UInt16, (littleEndian 2 port.toUInt64).length = 2 := fun _ ↦
    length_littleEndian 2 _
  have hstamp : (littleEndian 8 request.stamp.toUInt64).length = 8 := length_littleEndian 8 _
  have hkind : [request.kind.code].length = 1 := rfl
  -- the packet ends within what is sent of the buffer
  have hread : ∀ start count, start + count ≤ 28 + request.data.length →
      slice (Buffer.wire ⟨fillPacket frame request, packetHeaderSize + request.data.length⟩) start
        count = slice (fillPacket frame request).bytes start count := by
    intro start count hwithin
    refine slice_take ?_
    simp only [headerSize, packetHeaderSize]
    omega
  constructor
  · exact Buffer.length_wire hsize
  · rw [hread _ _ (by omega), fillPacket, Frame.slice_store _ hstamp (by decide)]
  · rw [hread _ _ (by omega), fillPacket,
      Frame.slice_store_of_disjoint _ (Or.inr (by rw [hstamp])),
      Frame.slice_store_of_disjoint _ (Or.inl (by omega)),
      Frame.slice_store_of_disjoint _ (Or.inl (by omega)),
      Frame.slice_store_of_disjoint _ (Or.inl (by omega)),
      Frame.slice_store _ (hport _) (by decide)]
  · rw [hread _ _ (by omega), fillPacket,
      Frame.slice_store_of_disjoint _ (Or.inr (by rw [hstamp]; omega)),
      Frame.slice_store_of_disjoint _ (Or.inl (by omega)),
      Frame.slice_store_of_disjoint _ (Or.inl (by omega)),
      Frame.slice_store _ (hport _) (by decide)]
  · rw [hread _ _ (by omega), fillPacket,
      Frame.slice_store_of_disjoint _ (Or.inr (by rw [hstamp]; omega)),
      Frame.slice_store_of_disjoint _ (Or.inl (by omega)),
      Frame.slice_store _ hkind (by decide)]
  · rw [hread _ _ (by omega), fillPacket,
      Frame.slice_store_of_disjoint _ (Or.inr (by rw [hstamp]; omega)),
      Frame.slice_store _ rfl (by rw [frameSize]; omega)]

/-- The writes of `send_via_nic` leave the quadrant that was there. -/
theorem packetQuadrant_fillPacket (frame : Frame) (dst src : Address) (request : SendRequest) :
    packetQuadrant (fillPacket (frame.setHeader dst src proto) request).bytes =
      packetQuadrant frame.bytes := by
  have hport : ∀ port : UInt16, (littleEndian 2 port.toUInt64).length = 2 := fun _ ↦
    length_littleEndian 2 _
  have hstamp : (littleEndian 8 request.stamp.toUInt64).length = 8 := length_littleEndian 8 _
  have htype : (typeBytes proto).length = 2 := rfl
  rw [packetQuadrant, fillPacket,
    Frame.getD_store_of_disjoint _ (Or.inr (by rw [hstamp]; omega)),
    Frame.getD_store_of_disjoint _ (Or.inl (by omega)),
    Frame.getD_store_of_disjoint _ (Or.inl (by omega)),
    Frame.getD_store_of_disjoint _ (Or.inr (by rw [hport])),
    Frame.getD_store_of_disjoint _ (Or.inr (by rw [hport]; omega)), Frame.setHeader,
    Frame.getD_store_of_disjoint _ (Or.inr (by rw [htype]; omega)),
    Frame.getD_store_of_disjoint _ (Or.inr (by rw [src.length_octets]; omega)),
    Frame.getD_store_of_disjoint _ (Or.inr (by rw [dst.length_octets]; omega)), packetQuadrant]

/-- The packet that `send_via_nic` builds. -/
theorem outgoing_sendViaNic {nic later : Nic} {request : SendRequest} {b : Fin bufferSize}
    {gateway : Bool} {n : Medium} (haddress : nic.address = nicAddress mac n)
    (hring : n = .shm → gateway = true → request.dst.paddr = .internal)
    (hsend : sendViaNic nic request = some (later, b)) :
    Outgoing mac gateway n request (later.buffers b).wire ∧
      packetQuadrant (later.buffers b).wire = packetQuadrant (nic.buffers b).data.bytes := by
  obtain ⟨⟨taken, c⟩, halloc, hlater⟩ := Option.map_eq_some_iff.mp hsend
  obtain ⟨hsize, rest, hfree, rfl⟩ := Nic.alloc_eq_some_iff.mp halloc
  cases hlater
  simp only [Nic.setData, Nic.setBuffer_buffers_self]
  refine ⟨⟨carries_fillPacket _ hsize, ?_, hring⟩, ?_⟩
  · simp only [Buffer.wire, List.take_take, min_eq_left (Nat.le_add_right _ _), fillPacket]
    rw [Frame.take_headerSize_store _ _ (by decide), Frame.take_headerSize_store _ _ (by decide),
      Frame.take_headerSize_store _ _ (by decide), Frame.take_headerSize_store _ _ (by decide),
      Frame.take_headerSize_store _ _ (by decide), Frame.take_setHeader, haddress]
  · rw [Buffer.wire, packetQuadrant_take (Nat.add_le_add_left (Nat.le_add_right _ _) _),
      packetQuadrant_fillPacket]

/-! ### The receive threads -/

/-- What a receive thread claims of the buffer it has. -/
theorem Process.Sound.ownClaim (h : P.Sound mac arrived constructed) {n : Medium}
    {b : Fin bufferSize} (hb : b ∈ (P.receiver n).own) :
    (P.receiver n).ownClaim arrived constructed n ((P.nic n).buffers b) :=
  h.governed.sound (.receiver n) (n, b) (List.mem_map_of_mem hb)

/-- What a receive thread claims of the copy it forwards. -/
theorem Process.Sound.lentClaim (h : P.Sound mac arrived constructed) {n : Medium}
    {c : Fin bufferSize} (hc : c ∈ (P.receiver n).lent) :
    (P.receiver n).lentClaim mac constructed n ((P.nic n.other).buffers c) :=
  h.governed.sound (.forwarder n) (n.other, c) (List.mem_map_of_mem hc)

/-- A frame that the raw socket engine does not drop has the quadrant of the reading, once the
function that reads the quadrant of a packet is installed. -/
theorem quadrantAgrees_of_kept {incoming : Incoming} {frame : Frame} {address : Address}
    {read : List UInt8 → UInt8} {gps : UInt8} (hread : read = packetQuadrant)
    (hkept : engineShouldDropFrame .raw (frame.store 0 incoming.data).bytes address
      (read (frame.store 0 incoming.data).bytes) gps = false) :
    QuadrantAgrees incoming.data gps := by
  intro hlength hgps hquadrant
  have hstart := frame.take_store_zero incoming.fits
  rw [hread, ← packetQuadrant_take hlength, hstart] at hkept
  simp only [engineShouldDropFrame, Bool.or_eq_false_iff, Bool.and_eq_false_iff,
    decide_eq_false_iff_not, not_not] at hkept
  rcases hkept.2 with (hnone | hnone) | hequal
  · exact absurd hnone hgps
  · exact absurd hnone hquadrant
  · exact hequal.symm

/-- A frame that the handler does not drop is accepted under the reading. -/
theorem Process.Sound.accepted (h : P.Sound mac arrived constructed) {n : Medium}
    {incoming : Incoming} {gps : UInt8} {frame : Frame} (harrived : arrived n incoming)
    (hconstructed : constructed → P.gateway = true ∧ P.stage = .returned)
    (hkept : engineShouldDropFrame n (frame.store 0 incoming.data).bytes (P.nic n).address
      ((P.nic n).readQuadrant (frame.store 0 incoming.data).bytes) gps = false) :
    Accepted arrived constructed n incoming gps := by
  refine ⟨harrived, ?_⟩
  rintro rfl hready
  obtain ⟨hrole, hreturned⟩ := hconstructed hready
  exact quadrantAgrees_of_kept (h.reads hrole (by simp [hreturned])) hkept

/-- The receive handler. -/
theorem Process.Sound.handle (h : P.Sound mac arrived constructed) {n : Medium}
    {incoming : Incoming} (gps : UInt8) (hphase : P.receiver n = .handler incoming)
    (hconstructed : constructed → P.gateway = true ∧ P.stage = .returned) :
    (P.handle n incoming gps).1.Sound mac arrived constructed := by
  have harrived := h.handler n incoming hphase
  have hown : (P.receiver n).own = [] := by rw [hphase]; rfl
  have hlent : (P.receiver n).lent = [] := by rw [hphase]; rfl
  unfold Process.handle
  cases halloc : (P.nic n).allocBuf with
  | none =>
    refine h.receiver_moved hown.symm hlent.symm (fun _ _ _ ↦ trivial) (fun _ _ _ ↦ trivial) ?_
    exact fun _ heq ↦ by cases heq
  | some taken =>
    obtain ⟨nic, b⟩ := taken
    have htakes := Nic.takes_allocBuf halloc
    simp only [min_eq_left incoming.fits, List.take_length, htakes.setup.address,
      htakes.setup.reads]
    split_ifs with hshort hdrop htype
    · exact h.receiver_takes hown hlent (htakes.setBuffer _) rfl rfl trivial
        fun _ heq ↦ by cases heq
    · exact h.receiver_takes hown hlent (htakes.setBuffer _) rfl rfl trivial
        fun _ heq ↦ by cases heq
    · refine h.receiver_takes hown hlent (htakes.setBuffer _) rfl rfl ?_ fun _ heq ↦ by cases heq
      rw [Nic.setBuffer_buffers_self]
      exact ⟨loaded_of_store _ (not_lt.mp hshort) htype,
        h.accepted harrived hconstructed (Bool.eq_false_iff.mpr hdrop)⟩
    · exact h.receiver_takes hown hlent (htakes.setBuffer _) rfl rfl trivial
        fun _ heq ↦ by cases heq

/-- The copy that `Protocol::update` makes. -/
theorem Process.Sound.forwardCopy (h : P.Sound mac arrived constructed) {n : Medium}
    {incoming : Incoming} {buffer : Buffer} {nic : Nic} {c : Fin bufferSize}
    (hloaded : Loaded incoming buffer) (hcopy : P.forwardCopy n buffer = some (nic, c)) :
    (nic.buffers c).wire = copyBytes mac n incoming.data ∧
      (n = .shm → Channel.forwardsToNetwork incoming.data = true) ∧
        (P.nic n.other).Takes nic c := by
  cases n with
  | shm =>
    simp only [Process.forwardCopy] at hcopy
    split_ifs at hcopy with hforwards
    have hwire := wire_forwardToNetwork hloaded (h.address .raw) hcopy
    rw [hloaded.forwardsToNetwork, Bool.and_eq_true] at hforwards
    obtain ⟨⟨taken, b⟩, halloc, hnic⟩ := Option.map_eq_some_iff.mp hcopy
    cases hnic
    exact ⟨hwire, fun _ ↦ hforwards.2, (Nic.takes_alloc halloc).setBuffer _⟩
  | raw =>
    simp only [Process.forwardCopy] at hcopy
    have hwire := wire_forwardToRing hloaded hcopy
    obtain ⟨⟨taken, b⟩, halloc, hnic⟩ := Option.map_eq_some_iff.mp hcopy
    cases hnic
    exact ⟨hwire, fun heq ↦ (by cases heq), (Nic.takes_alloc halloc).setBuffer _⟩

/-- `Protocol::update`. -/
theorem Process.Sound.update (h : P.Sound mac arrived constructed) {n : Medium}
    {incoming : Incoming} {reading : UInt8} {b : Fin bufferSize}
    (hphase : P.receiver n = .update incoming reading b) :
    (P.update n incoming reading b).Sound mac arrived constructed := by
  have hown : (P.receiver n).own = [b] := by rw [hphase]; rfl
  have hlent : (P.receiver n).lent = [] := by rw [hphase]; rfl
  have hclaim := h.ownClaim (n := n) (b := b) (by rw [hown]; exact List.mem_singleton_self b)
  rw [hphase] at hclaim
  obtain ⟨hloaded, haccepted⟩ := hclaim
  unfold Process.update
  dsimp only
  split_ifs with hshort hsptp
  · refine h.receiver_moved hown.symm hlent.symm (fun _ _ _ ↦ trivial) (fun _ _ _ ↦ trivial) ?_
    exact fun _ heq ↦ by cases heq
  · refine h.receiver_moved hown.symm hlent.symm (fun _ _ _ ↦ trivial) (fun _ _ _ ↦ trivial) ?_
    exact fun _ heq ↦ by cases heq
  · have hsize : packetHeaderSize ≤ ((P.nic n).buffers b).size := not_lt.mp hshort
    have hpropagated : Propagated n incoming.data := by
      refine ⟨?_, fun hn ↦ ?_⟩
      · rw [← hloaded.length]
        exact Nat.add_le_add_left hsize _
      · rw [← hloaded.isSptp hsize, Bool.eq_false_iff]
        exact fun htrue ↦ hsptp ⟨hn, htrue⟩
    cases hcopy : P.forwardCopy n ((P.nic n).buffers b) with
    | none =>
      refine h.receiver_moved hown.symm hlent.symm (fun x hx _ ↦ ?_) (fun _ _ _ ↦ trivial) ?_
      · rw [hown] at hx
        rw [List.mem_singleton.mp hx]
        exact ⟨hloaded, haccepted, hpropagated⟩
      · exact fun _ heq ↦ by cases heq
    | some taken =>
      obtain ⟨nic, c⟩ := taken
      obtain ⟨hwire, hforwards, htakes⟩ := h.forwardCopy hloaded hcopy
      refine h.copy_takes hlent htakes hown.symm rfl (fun x hx _ ↦ ?_) hwire
        fun _ heq ↦ by cases heq
      rw [hown] at hx
      rw [List.mem_singleton.mp hx]
      exact ⟨hloaded, haccepted, hpropagated, hforwards⟩

/-- The stamp of a send through NIC `n`. -/
theorem Process.Sound.stamped (h : P.Sound mac arrived constructed) {n : Medium}
    (hconstructed : constructed → P.gateway = true ∧ P.stage = .returned) (buffer : Buffer)
    (reading : UInt8) :
    Stamped constructed n buffer.wire reading
      (Buffer.wire { buffer with data := (P.nic n).writeQuadrant buffer.data reading }) := by
  cases n with
  | shm =>
    rw [h.ring]
    rfl
  | raw =>
    rcases h.socket with hwrite | hdefault
    · rw [hwrite, wire_writeQuadrant]
      exact Or.inl rfl
    · by_cases hready : constructed
      · rw [h.writes (hconstructed hready).1 (by simp [hconstructed hready]), wire_writeQuadrant]
        exact Or.inl rfl
      · rw [hdefault]
        exact Or.inr ⟨hready, rfl⟩

/-- The send of the copy. -/
theorem Process.Sound.forward (h : P.Sound mac arrived constructed) {n : Medium}
    {incoming : Incoming} {reading : UInt8} {b : Fin bufferSize} {send : SendPhase} (gps : UInt8)
    (hphase : P.receiver n = .forward incoming reading b send)
    (hconstructed : constructed → P.gateway = true ∧ P.stage = .returned) :
    (P.forward n incoming reading b send gps).1.Sound mac arrived constructed := by
  have hown : (P.receiver n).own = [b] := by rw [hphase]; rfl
  have hlent : (P.receiver n).lent = [send.buffer] := by rw [hphase]; rfl
  have hown' := h.ownClaim (n := n) (b := b) (by rw [hown]; exact List.mem_singleton_self b)
  have hlent' := h.lentClaim (n := n) (c := send.buffer)
    (by rw [hlent]; exact List.mem_singleton_self _)
  rw [hphase] at hown' hlent'
  obtain ⟨hloaded, haccepted, hpropagated, hforwards⟩ := hown'
  have hkeep : ∀ later : SendPhase, ∀ x ∈ (P.receiver n).own,
      HandlerPhase.ownClaim arrived constructed n (.forward incoming reading b later)
        ((P.nic n).buffers x) := by
    intro later x hx
    rw [hown] at hx
    rw [List.mem_singleton.mp hx]
    exact ⟨hloaded, haccepted, hpropagated, hforwards⟩
  cases send with
  | stamp c =>
    refine h.copy_written hlent ⟨rfl, rfl, rfl⟩ rfl (fun y hy ↦ ?_) hown.symm rfl
      (fun x hx _ ↦ hkeep _ x hx) ?_ fun _ heq ↦ by cases heq
    · exact Nic.setBuffer_buffers_of_ne _ _ hy
    · have hwire : ((P.nic n.other).buffers c).wire = copyBytes mac n incoming.data := hlent'
      have hstamped := h.stamped (n := n.other) hconstructed ((P.nic n.other).buffers c)
        (currentQuadrant n.other gps)
      rw [hwire] at hstamped
      simp only [Nic.sendStep, Nic.setData, SendPhase.buffer, Nic.setBuffer_buffers_self]
      exact hstamped
  | transmit c q =>
    have hsame : P.setNic n.other (P.nic n.other) = P := by
      rw [Process.setNic, Function.update_eq_self]
    simp only [Process.forward, Nic.sendStep, hsame]
    refine h.receiver_moved hown.symm hlent.symm (fun x hx _ ↦ hkeep _ x hx)
      (fun _ _ _ ↦ trivial) ?_
    exact fun _ heq ↦ by cases heq
  | release c =>
    refine h.copy_released hlent hown.symm rfl (fun x hx _ ↦ ?_) fun _ heq ↦ by cases heq
    rw [hown] at hx
    rw [List.mem_singleton.mp hx]
    exact ⟨hloaded, haccepted, hpropagated⟩

/-- `notify`: the buffer goes to the queue, or on to `free_buffer`. -/
theorem Process.Sound.notify (h : P.Sound mac arrived constructed) {n : Medium}
    {incoming : Incoming} {reading : UInt8} {b : Fin bufferSize}
    (hphase : P.receiver n = .notify incoming reading b) :
    (P.notify n incoming reading b).1.Sound mac arrived constructed := by
  have hown : (P.receiver n).own = [b] := by rw [hphase]; rfl
  have hlent : (P.receiver n).lent = [] := by rw [hphase]; rfl
  have hclaim := h.ownClaim (n := n) (b := b) (by rw [hown]; exact List.mem_singleton_self b)
  rw [hphase] at hclaim
  unfold Process.notify
  split_ifs with hport hwatched
  · refine h.receiver_moved hown.symm hlent.symm (fun _ _ _ ↦ trivial) (fun _ _ _ ↦ trivial) ?_
    exact fun _ heq ↦ by cases heq
  · refine h.rebuild (h.governed.move (i := .receiver n) (j := .queue n) (x := (n, b))
      (fun heq ↦ by cases heq) ?_ ?_ (fun k hki hkj ↦ ?_) (fun _ _ ↦ rfl)
      (fun k y hyin hyx hold ↦ ?_) ?_)
        (fun _ ↦ Nic.SameSetup.refl _) rfl rfl fun k other hother ↦ ?_
    · simp [Process.holdings, Process.setReceiver, hown]
    · simp only [Process.holdings, Function.update_self, List.map_append, List.map_cons,
        List.map_nil]
      exact List.perm_append_singleton _ _
    · cases k with
      | receiver l =>
        have hl : l ≠ n := fun heq ↦ hki (congrArg Place.receiver heq)
        simp only [Process.holdings, Process.setReceiver_receiver_of_ne _ _ hl]
      | forwarder l =>
        by_cases hl : l = n
        · subst hl
          simp only [Process.holdings, Process.setReceiver_receiver_self, hlent,
            HandlerPhase.lent_idle]
        · simp only [Process.holdings, Process.setReceiver_receiver_of_ne _ _ hl]
      | queue l =>
        have hl : l ≠ n := fun heq ↦ hkj (congrArg Place.queue heq)
        simp only [Process.holdings, Function.update_of_ne hl]
      | freeList l => rfl
      | app t => rfl
      | lost l => rfl
    · cases k with
      | receiver l =>
        by_cases hl : l = n
        · subst hl
          simp only [Process.claim, Process.setReceiver_receiver_self]
          exact trivial
        · simp only [Process.claim, Process.setReceiver_receiver_of_ne _ _ hl]
          exact hold
      | forwarder l =>
        by_cases hl : l = n
        · subst hl
          simp only [Process.claim, Process.setReceiver_receiver_self]
          exact trivial
        · simp only [Process.claim, Process.setReceiver_receiver_of_ne _ _ hl]
          exact hold
      | queue l =>
        by_cases hl : l = n
        · subst hl
          simp only [Process.claim, Function.update_self, List.mem_append, List.mem_singleton]
          rintro held (hin | rfl) hb
          · exact hold held hin hb
          · obtain ⟨c, -, rfl⟩ := List.mem_map.mp hyin
            exact absurd (congrArg (Prod.mk l) hb.symm) hyx
        · simp only [Process.claim, Function.update_of_ne hl]
          exact hold
      | freeList l => exact trivial
      | app t => exact hold
      | lost l => exact trivial
    · -- the buffer itself: no other entry of the queue has it
      simp only [Process.claim, Function.update_self, List.mem_append, List.mem_singleton]
      rintro held (hin | rfl) hb
      · have hqueue : (n, b) ∈ P.holdings (.queue n) := by
          rw [← hb]
          exact List.mem_map_of_mem (f := fun held : Held ↦ (n, held.b)) hin
        have hreceiver : (n, b) ∈ P.holdings (.receiver n) := by simp [Process.holdings, hown]
        exact absurd rfl (h.governed.exclusive.ne (fun heq ↦ by cases heq) hreceiver hqueue)
      · exact hclaim
    · by_cases hk : k = n
      · subst hk
        simp only [Process.setReceiver_receiver_self] at hother
        cases hother
      · simp only [Process.setReceiver_receiver_of_ne _ _ hk] at hother
        exact Or.inl hother
  · refine h.receiver_moved hown.symm hlent.symm (fun _ _ _ ↦ trivial) (fun _ _ _ ↦ trivial) ?_
    exact fun _ heq ↦ by cases heq

/-- The end of the handler in `Protocol::free_buffer`. -/
theorem Process.Sound.freeBuffer (h : P.Sound mac arrived constructed) {n : Medium}
    {b : Fin bufferSize} (hphase : P.receiver n = .freeBuffer b) :
    ((P.freeBuffer n b).setReceiver n .idle).Sound mac arrived constructed := by
  have hown : (P.receiver n).own = [b] := by rw [hphase]; rfl
  have hlent : (P.receiver n).lent = [] := by rw [hphase]; rfl
  rcases P.freeBuffer_cases n b with hfreed | hlost
  · rw [hfreed]
    exact h.receiver_released hown hlent
  · rw [hlost]
    exact h.receiver_lost hown hlent

/-- Every step of a receive thread. -/
theorem Process.Sound.receive (h : P.Sound mac arrived constructed) {n : Medium} {gps : UInt8}
    {event : Event} (hconstructed : constructed → P.gateway = true ∧ P.stage = .returned)
    (hstep : P.receive n gps = some (P', event)) : P'.Sound mac arrived constructed := by
  unfold Process.receive at hstep
  split at hstep
  case h_1 => cases hstep
  case h_2 incoming hphase =>
    obtain ⟨rfl, rfl⟩ := Prod.mk.inj (Option.some.inj hstep)
    exact h.handle gps hphase hconstructed
  case h_3 incoming reading b hphase =>
    obtain ⟨rfl, rfl⟩ := Prod.mk.inj (Option.some.inj hstep)
    exact h.update hphase
  case h_4 incoming reading b send hphase =>
    obtain ⟨rfl, rfl⟩ := Prod.mk.inj (Option.some.inj hstep)
    exact h.forward gps hphase hconstructed
  case h_5 incoming reading b hphase =>
    obtain ⟨rfl, rfl⟩ := Prod.mk.inj (Option.some.inj hstep)
    exact h.notify hphase
  case h_6 b hphase =>
    obtain ⟨rfl, rfl⟩ := Prod.mk.inj (Option.some.inj hstep)
    exact h.receiver_released (by rw [hphase]; rfl) (by rw [hphase]; rfl)
  case h_7 b hphase =>
    obtain ⟨rfl, rfl⟩ := Prod.mk.inj (Option.some.inj hstep)
    exact h.freeBuffer hphase

/-! ### The constructor and the observers -/

/-- A step that changes neither buffers nor phases. -/
theorem Process.Sound.governed_of_same (h : P.Sound mac arrived constructed)
    (hnic : ∀ n, (P'.nic n).freeList = (P.nic n).freeList ∧ (P'.nic n).buffers = (P.nic n).buffers)
    (hreceiver : P'.receiver = P.receiver) (happ : P'.app = P.app) (hheld : P'.held = P.held)
    (hlost : P'.lost = P.lost) (hgateway : P'.gateway = P.gateway) :
    Governed P'.holdings (P'.claim mac arrived constructed) P'.content := by
  have hholdings : P'.holdings = P.holdings := by
    funext k
    cases k <;> simp only [Process.holdings, hreceiver, happ, hheld, hlost, hnic]
  have hcontent : P'.content = P.content := by
    funext x
    rw [Process.content, (hnic x.1).2, Process.content]
  rw [hholdings, hcontent]
  refine h.governed.mono fun k x _ hold ↦ ?_
  cases k <;> simp only [Process.claim, hreceiver, happ, hheld, hgateway] at hold ⊢ <;> exact hold

/-- A step of the constructor. -/
theorem Process.Sound.construct (h : P.Sound mac arrived constructed)
    (hstep : P.construct = some P') : P'.Sound mac arrived constructed := by
  unfold Process.construct at hstep
  split at hstep
  case h_1 hstage =>
    split_ifs at hstep with hrole
    · cases hstep
      exact ⟨h.governed_of_same (fun _ ↦ ⟨rfl, rfl⟩) rfl rfl rfl rfl rfl, h.address, h.handler,
        h.ring,
        h.socket, fun _ hin ↦ by simp at hin, fun _ hin ↦ by simp at hin⟩
    · cases hstep
      exact ⟨h.governed_of_same (fun _ ↦ ⟨rfl, rfl⟩) rfl rfl rfl rfl rfl, h.address, h.handler,
        h.ring,
        h.socket, fun hgateway ↦ absurd hgateway hrole, fun hgateway ↦ absurd hgateway hrole⟩
  case h_2 hstage =>
    cases hstep
    exact ⟨h.governed_of_same (fun _ ↦ ⟨rfl, rfl⟩) rfl rfl rfl rfl rfl, h.address, h.handler,
      h.ring,
      h.socket, fun _ hin ↦ by simp at hin, fun _ hin ↦ by simp at hin⟩
  case h_3 hstage =>
    cases hstep
    refine ⟨h.governed_of_same (fun n ↦ ?_) rfl rfl rfl rfl rfl, fun n ↦ ?_, h.handler, h.ring,
      h.socket, fun _ _ ↦ rfl, fun _ hin ↦ by simp at hin⟩
    · cases n <;> exact ⟨rfl, rfl⟩
    · cases n
      · exact h.address .shm
      · exact h.address .raw
  case h_4 hstage =>
    cases hstep
    refine ⟨h.governed_of_same (fun n ↦ ?_) rfl rfl rfl rfl rfl, fun n ↦ ?_, h.handler, h.ring,
      Or.inl rfl, fun hrole _ ↦ h.reads hrole (by simp [hstage]), fun _ _ ↦ rfl⟩
    · cases n <;> exact ⟨rfl, rfl⟩
    · cases n
      · exact h.address .shm
      · exact h.address .raw
  case h_5 hstage =>
    cases hstep
    exact ⟨h.governed_of_same (fun _ ↦ ⟨rfl, rfl⟩) rfl rfl rfl rfl rfl, h.address, h.handler,
      h.ring,
      h.socket, fun hrole _ ↦ h.reads hrole (by simp [hstage]),
      fun hrole _ ↦ h.writes hrole (by simp [hstage])⟩
  case h_6 hstage => cases hstep

/-- A change of the observers. -/
theorem Process.Sound.observe (h : P.Sound mac arrived constructed)
    (observers watched : List UInt16) : Process.Sound mac arrived constructed
      { P with observers := observers, watched := watched } :=
  ⟨h.governed_of_same (fun _ ↦ ⟨rfl, rfl⟩) rfl rfl rfl rfl rfl, h.address, h.handler, h.ring,
    h.socket,
    h.reads, h.writes⟩

/-- A frame that arrives. -/
theorem Process.Sound.arrive (h : P.Sound mac arrived constructed) {n : Medium}
    {incoming : Incoming} (harrived : arrived n incoming)
    (hstep : P.arrive n incoming = some P') : P'.Sound mac arrived constructed := by
  unfold Process.arrive at hstep
  split at hstep
  case h_1 hidle =>
    split_ifs at hstep
    cases hstep
    refine h.receiver_moved (by rw [hidle]; rfl) (by rw [hidle]; rfl) (fun _ _ _ ↦ trivial)
      (fun _ _ _ ↦ trivial) fun other hother ↦ ?_
    cases hother
    exact harrived
  case h_2 => cases hstep

/-! ### The threads that send -/

/-- What the other places hold and claim when a thread in `Protocol::send` takes a step. -/
theorem Process.sameAt_app [DecidableEq τ] {t : τ} {m : Medium} {nic : Nic} {phase : AppPhase}
    {k : Place τ} (hfree : k ≠ .freeList m) (happ : k ≠ .app t) :
    P.SameAt { P.setNic m nic with app := Function.update P.app t phase } k := by
  cases k with
  | freeList l =>
    have hl : l ≠ m := fun heq ↦ hfree (congrArg Place.freeList heq)
    simp only [Process.SameAt, Process.setNic_nic_of_ne _ _ hl]
  | app u =>
    have hu : u ≠ t := fun heq ↦ happ (congrArg Place.app heq)
    simp only [Process.SameAt, Function.update_of_ne hu]
  | receiver l => rfl
  | forwarder l => rfl
  | queue l => rfl
  | lost l => rfl

/-- A thread moves a buffer of NIC `m` between the free list and its hands. -/
theorem Process.Sound.app_move (h : P.Sound mac arrived constructed) [DecidableEq τ] {t : τ}
    {m : Medium} {nic : Nic} {phase : AppPhase} {i j : Place τ} {x : Fin bufferSize}
    (hplaces : i = .freeList m ∧ j = .app t ∨ i = .app t ∧ j = .freeList m)
    (hsetup : (P.nic m).SameSetup nic) (hbuffers : ∀ y, y ≠ x → nic.buffers y = (P.nic m).buffers y)
    (hfrom : (P.holdings i).Perm ((m, x) :: Process.holdings
      { P.setNic m nic with app := Function.update P.app t phase } i))
    (hto : (Process.holdings { P.setNic m nic with app := Function.update P.app t phase } j).Perm
      ((m, x) :: P.holdings j))
    (honly : ∀ y ∈ (P.app t).lent, y = (m, x))
    (hclaim : phase.claim mac constructed P.gateway (nic.buffers x)) :
    Process.Sound mac arrived constructed
      { P.setNic m nic with app := Function.update P.app t phase } := by
  have hij : i ≠ j := by
    rcases hplaces with ⟨rfl, rfl⟩ | ⟨rfl, rfl⟩
    · exact fun heq ↦ by cases heq
    · exact fun heq ↦ by cases heq
  have hout : ∀ k, k ≠ i → k ≠ j → k ≠ .freeList m ∧ k ≠ .app t := by
    intro k hki hkj
    rcases hplaces with ⟨rfl, rfl⟩ | ⟨rfl, rfl⟩
    · exact ⟨hki, hkj⟩
    · exact ⟨hkj, hki⟩
  refine h.rebuild (h.governed.move hij hfrom hto (fun k hki hkj ↦ ?_) (fun y hy ↦ ?_)
    (fun k y hyin hyx hold ↦ ?_) ?_) (Process.sameSetup_setNic hsetup) rfl rfl
      fun _ _ hphase ↦ Or.inl hphase
  · exact (Process.sameAt_app (hout k hki hkj).1 (hout k hki hkj).2).holdings
  · obtain ⟨l, c⟩ := y
    by_cases hl : l = m
    · subst hl
      have hc : c ≠ x := fun heq ↦ hy (by rw [heq])
      simp only [Process.content, Process.setNic_nic_self, hbuffers c hc]
    · simp only [Process.content, Process.setNic_nic_of_ne _ _ hl]
  · by_cases hkm : k = .freeList m
    · subst hkm
      exact trivial
    · by_cases hkt : k = .app t
      · subst hkt
        exact absurd (honly y hyin) hyx
      · rw [(Process.sameAt_app hkm hkt).claim rfl]
        exact hold
  · have hcontent : Process.content
        { P.setNic m nic with app := Function.update P.app t phase } (m, x) = nic.buffers x := by
      simp only [Process.content, Process.setNic_nic_self]
    rw [hcontent]
    rcases hplaces with ⟨-, rfl⟩ | ⟨-, rfl⟩
    · simp only [Process.claim, Function.update_self]
      exact hclaim
    · exact trivial

/-- `Protocol::send` up to `NIC::send`. -/
theorem Process.Sound.callSend (h : P.Sound mac arrived constructed) [DecidableEq τ] {t : τ}
    {request : SendRequest} (hstep : P.callSend t request = some P') :
    P'.Sound mac arrived constructed := by
  unfold Process.callSend at hstep
  split at hstep
  case h_2 => cases hstep
  case h_1 hidle =>
    split_ifs at hstep with hreturned
    have hnone : (P.app t).lent = [] := by rw [hidle]; rfl
    cases hsend : sendViaNic (P.nic (P.route request.dst.paddr)) request with
    | none =>
      rw [hsend] at hstep
      cases hstep
      exact h
    | some taken =>
      obtain ⟨nic, b⟩ := taken
      rw [hsend] at hstep
      cases hstep
      have hring : P.route request.dst.paddr = .shm → P.gateway = true →
          request.dst.paddr = .internal := by
        intro hroute hgateway
        by_contra hother
        simp [Process.route, Process.hasSocket, hgateway, hreturned, hother] at hroute
      have hout := outgoing_sendViaNic (h.address _) hring hsend
      obtain ⟨⟨taken, c⟩, halloc, hlater⟩ := Option.map_eq_some_iff.mp hsend
      cases hlater
      have htakes := (Nic.takes_alloc halloc).setBuffer
        { taken.buffers c with data := fillPacket (taken.buffers c).data request }
      refine h.app_move (x := c) (Or.inl ⟨rfl, rfl⟩) htakes.setup htakes.others ?_ ?_ ?_ hout
      · simp [Process.holdings, htakes.free, Nic.setData]
      · simp [Process.holdings, hnone, SendPhase.buffer]
      · rw [hnone]
        exact fun _ hin ↦ absurd hin List.not_mem_nil

/-- What a thread in `Protocol::send` claims of its buffer. -/
theorem Process.Sound.appClaim (h : P.Sound mac arrived constructed) {t : τ} {n : Medium}
    {request : SendRequest} {found : UInt8} {send : SendPhase}
    (hphase : P.app t = .sending n request found send) :
    (AppPhase.sending n request found send).claim mac constructed P.gateway
      ((P.nic n).buffers send.buffer) := by
  have hin : (n, send.buffer) ∈ P.holdings (.app t) := by simp [Process.holdings, hphase]
  have hclaim := h.governed.sound (.app t) _ hin
  simp only [Process.claim, hphase] at hclaim
  exact hclaim

/-- A thread writes into the buffer it sends, or moves on with it. -/
theorem Process.Sound.app_written (h : P.Sound mac arrived constructed) [DecidableEq τ] {t : τ}
    {m : Medium} {nic : Nic} {phase : AppPhase} {x : Fin bufferSize}
    (hlent : (P.app t).lent = [(m, x)]) (hlent' : phase.lent = [(m, x)])
    (hsetup : (P.nic m).SameSetup nic) (hfree : nic.freeList = (P.nic m).freeList)
    (hbuffers : ∀ y, y ≠ x → nic.buffers y = (P.nic m).buffers y)
    (hclaim : phase.claim mac constructed P.gateway (nic.buffers x)) :
    Process.Sound mac arrived constructed
      { P.setNic m nic with app := Function.update P.app t phase } := by
  have hmine : (m, x) ∈ P.holdings (.app t) := by simp [Process.holdings, hlent]
  refine h.rebuild (h.governed.rewrite (i := .app t) hmine ?_ (fun y hy ↦ ?_)
    (fun k y hyin hyx hold ↦ ?_) ?_) (Process.sameSetup_setNic hsetup) rfl rfl
      fun _ _ hphase ↦ Or.inl hphase
  · funext k
    by_cases hkm : k = .freeList m
    · subst hkm
      simp only [Process.holdings, Process.setNic_nic_self, hfree]
    · by_cases hkt : k = .app t
      · subst hkt
        simp only [Process.holdings, Function.update_self, hlent, hlent']
      · exact (Process.sameAt_app hkm hkt).holdings
  · obtain ⟨l, c⟩ := y
    by_cases hl : l = m
    · subst hl
      have hc : c ≠ x := fun heq ↦ hy (by rw [heq])
      simp only [Process.content, Process.setNic_nic_self, hbuffers c hc]
    · simp only [Process.content, Process.setNic_nic_of_ne _ _ hl]
  · by_cases hkm : k = .freeList m
    · subst hkm
      exact trivial
    · by_cases hkt : k = .app t
      · subst hkt
        simp only [Process.holdings, hlent, List.mem_singleton] at hyin
        exact absurd hyin hyx
      · rw [(Process.sameAt_app hkm hkt).claim rfl]
        exact hold
  · have hcontent : Process.content
        { P.setNic m nic with app := Function.update P.app t phase } (m, x) = nic.buffers x := by
      simp only [Process.content, Process.setNic_nic_self]
    rw [hcontent]
    simp only [Process.claim, Function.update_self]
    exact hclaim

/-- `NIC::send` in `Protocol::send`. -/
theorem Process.Sound.send (h : P.Sound mac arrived constructed) [DecidableEq τ] {t : τ}
    {gps : UInt8} {event : Event}
    (hconstructed : constructed → P.gateway = true ∧ P.stage = .returned)
    (hstep : P.send t gps = some (P', event)) : P'.Sound mac arrived constructed := by
  unfold Process.send at hstep
  split at hstep
  case h_1 => cases hstep
  case h_2 n request found send hphase =>
    have hclaim := h.appClaim hphase
    obtain ⟨rfl, rfl⟩ := Prod.mk.inj (Option.some.inj hstep)
    have hlent : (P.app t).lent = [(n, send.buffer)] := by rw [hphase]; rfl
    cases send with
    | stamp b =>
      refine h.app_written (x := b) hlent rfl ⟨rfl, rfl, rfl⟩ rfl (fun y hy ↦ ?_) ?_
      · exact Nic.setBuffer_buffers_of_ne _ _ hy
      · obtain ⟨hout, hfound⟩ : Outgoing mac P.gateway n request ((P.nic n).buffers b).wire ∧
            packetQuadrant ((P.nic n).buffers b).wire = found := hclaim
        have hstamped := h.stamped (n := n) hconstructed ((P.nic n).buffers b)
          (currentQuadrant n gps)
        simp only [Nic.sendStep, Nic.setData, Nic.setBuffer_buffers_self, Option.elim_some]
        cases n with
        | shm =>
          have hsame : _ = _ := hstamped
          refine ⟨?_, ?_⟩
          · rw [hsame]
            exact hout
          · rw [hsame]
            exact hfound
        | raw =>
          rcases hstamped with hwritten | ⟨hnot, hsame⟩
          · refine ⟨?_, fun _ ↦ ?_⟩
            · rw [hwritten]
              exact hout.stampQuadrant _
            · rw [hwritten, packetQuadrant_stampQuadrant _ hout.packet.whole]
          · refine ⟨?_, fun hready ↦ absurd hready hnot⟩
            rw [hsame]
            exact hout
    | transmit b q =>
      exact h.app_written (x := b) hlent rfl (Nic.SameSetup.refl _) rfl (fun _ _ ↦ rfl) trivial
    | release b =>
      refine h.app_move (x := b) (Or.inr ⟨rfl, rfl⟩) ⟨rfl, rfl, rfl⟩
        (fun _ _ ↦ rfl) ?_ ?_ ?_ trivial
      · simp [Process.holdings, hlent, Nic.sendStep, SendPhase.buffer]
      · simp [Process.holdings, Nic.sendStep]
      · rw [hlent]
        exact fun y hy ↦ List.mem_singleton.mp hy

/-! ### The queue -/

/-- An entry of the queue takes its buffer with it. -/
theorem Process.perm_eraseIdx {entries : List Held} {j : ℕ} {held : Held} {n : Medium}
    (hentry : entries[j]? = some held) :
    (entries.map fun entry ↦ (n, entry.b)).Perm
      ((n, held.b) :: (entries.eraseIdx j).map fun entry ↦ (n, entry.b)) := by
  obtain ⟨hj, hget⟩ := List.getElem?_eq_some_iff.mp hentry
  have hperm := (List.getElem_cons_eraseIdx_perm hj).symm
  rw [hget] at hperm
  exact hperm.map _

/-- A step that takes entry `j` out of the queue of NIC `n` and puts its buffer elsewhere. -/
structure Process.TakesEntry (P later : Process τ) (n : Medium) (j : ℕ) (target : Place τ) :
    Prop where
  held : later.held = Function.update P.held n ((P.held n).eraseIdx j)
  receiver : later.receiver = P.receiver
  app : later.app = P.app
  gateway : later.gateway = P.gateway
  away : target = .freeList n ∨ target = .lost n
  free : ∀ k, .freeList k ≠ target → (later.nic k).freeList = (P.nic k).freeList
  lost : ∀ k, .lost k ≠ target → later.lost k = P.lost k

theorem Process.TakesEntry.sameAt {later : Process τ} {n : Medium} {j : ℕ} {target : Place τ}
    (h : P.TakesEntry later n j target) {k : Place τ} (hqueue : k ≠ .queue n)
    (htarget : k ≠ target) : P.SameAt later k := by
  cases k with
  | queue l =>
    have hl : l ≠ n := fun heq ↦ hqueue (congrArg Place.queue heq)
    simp only [Process.SameAt, h.held, Function.update_of_ne hl]
  | freeList l => exact h.free l htarget
  | receiver l => simp only [Process.SameAt, h.receiver]
  | forwarder l => simp only [Process.SameAt, h.receiver]
  | app t => simp only [Process.SameAt, h.app]
  | lost l => exact h.lost l htarget

/-- The claims that remain were made before. -/
theorem Process.TakesEntry.claim {later : Process τ} {n : Medium} {j : ℕ} {target : Place τ}
    (h : P.TakesEntry later n j target) (k : Place τ) (x : Medium × Fin bufferSize)
    (buffer : Buffer) (hold : P.claim mac arrived constructed k x buffer) :
    later.claim mac arrived constructed k x buffer := by
  by_cases hqueue : k = .queue n
  · subst hqueue
    simp only [Process.claim, h.held, Function.update_self]
    exact fun entry hin hb ↦ hold entry (List.mem_of_mem_eraseIdx hin) hb
  · by_cases htarget : k = target
    · rcases h.away with haway | haway
      · rw [htarget, haway]
        exact trivial
      · rw [htarget, haway]
        exact trivial
    · rw [(h.sameAt hqueue htarget).claim h.gateway]
      exact hold

theorem Process.TakesEntry.perm {later : Process τ} {n : Medium} {j : ℕ} {target : Place τ}
    {held : Held} (h : P.TakesEntry later n j target) (hentry : (P.held n)[j]? = some held) :
    (P.holdings (.queue n)).Perm ((n, held.b) :: later.holdings (.queue n)) := by
  simp only [Process.holdings, h.held, Function.update_self]
  exact Process.perm_eraseIdx hentry

/-- `Protocol::receive`. -/
theorem Process.Sound.receiveMessage (h : P.Sound mac arrived constructed) {n : Medium}
    {j capacity : ℕ} {event : Event}
    (hstep : P.receiveMessage n j capacity = some (P', event)) :
    P'.Sound mac arrived constructed := by
  unfold Process.receiveMessage at hstep
  split at hstep
  case h_1 => cases hstep
  case h_2 held hentry =>
    split_ifs at hstep
    obtain ⟨rfl, rfl⟩ := Prod.mk.inj (Option.some.inj hstep)
    rcases P.freeBuffer_cases n held.b with hfreed | hlost
    · rw [hfreed]
      have htakes : P.TakesEntry { P.setNic n ((P.nic n).free held.b) with
          held := Function.update P.held n ((P.held n).eraseIdx j) } n j (.freeList n) := by
        refine ⟨rfl, rfl, rfl, rfl, Or.inl rfl, fun k hk ↦ ?_, fun _ _ ↦ rfl⟩
        simp only [Process.setNic_nic_of_ne _ _ fun heq ↦ hk (congrArg Place.freeList heq)]
      refine h.rebuild (h.governed.move (i := .queue n) (j := .freeList n) (x := (n, held.b))
        (fun heq ↦ by cases heq) (htakes.perm hentry) ?_
        (fun k hqueue hfree ↦ (htakes.sameAt hqueue hfree).holdings) (fun y _ ↦ ?_)
        (fun k y _ _ hold ↦ htakes.claim k y _ hold) trivial)
        (Process.sameSetup_setNic ⟨rfl, rfl, rfl⟩) rfl rfl fun _ _ hphase ↦ Or.inl hphase
      · simp [Process.holdings]
      · obtain ⟨l, c⟩ := y
        by_cases hl : l = n
        · subst hl
          simp only [Process.content, Process.setNic_nic_self, Nic.free_buffers]
        · simp only [Process.content, Process.setNic_nic_of_ne _ _ hl]
    · rw [hlost]
      have htakes : P.TakesEntry { P.lose n held.b with
          held := Function.update P.held n ((P.held n).eraseIdx j) } n j (.lost n) := by
        refine ⟨rfl, rfl, rfl, rfl, Or.inr rfl, fun _ _ ↦ rfl, fun k hk ↦ ?_⟩
        simp only [Process.lose, Function.update_of_ne fun heq ↦ hk (congrArg Place.lost heq)]
      refine h.rebuild (h.governed.move (i := .queue n) (j := .lost n) (x := (n, held.b))
        (fun heq ↦ by cases heq) (htakes.perm hentry) ?_
        (fun k hqueue hlost ↦ (htakes.sameAt hqueue hlost).holdings) (fun _ _ ↦ rfl)
        (fun k y _ _ hold ↦ htakes.claim k y _ hold) trivial)
        (fun _ ↦ Nic.SameSetup.refl _) rfl rfl fun _ _ hphase ↦ Or.inl hphase
      simp [Process.holdings, Process.lose]

/-! ### All steps -/

/-- The step lemma of a process. Assumes: what is said of the frames that arrive is true of the one
that arrives, and the claims on quadrants are made only of a gateway whose constructor has returned
when it does anything else. -/
theorem Process.Sound.step (h : P.Sound mac arrived constructed) [DecidableEq τ]
    {action : ProcessAction τ} {event : Event}
    (harrived : ∀ n incoming, action = .arrive n incoming → arrived n incoming)
    (hconstructed : constructed → action ≠ .construct → P.gateway = true ∧ P.stage = .returned)
    (hstep : P.step action = some (P', event)) : P'.Sound mac arrived constructed := by
  cases action with
  | construct =>
    obtain ⟨later, hlater, heq⟩ := Option.map_eq_some_iff.mp hstep
    cases heq
    exact h.construct hlater
  | attach port =>
    obtain ⟨later, hlater, heq⟩ := Option.map_eq_some_iff.mp hstep
    cases heq
    unfold Process.attach at hlater
    split_ifs at hlater
    cases hlater
    exact h.observe _ _
  | detach port =>
    obtain ⟨rfl, rfl⟩ := Prod.mk.inj (Option.some.inj hstep)
    exact h.observe _ _
  | watch port =>
    obtain ⟨rfl, rfl⟩ := Prod.mk.inj (Option.some.inj hstep)
    exact h.observe _ _
  | unwatch port =>
    obtain ⟨rfl, rfl⟩ := Prod.mk.inj (Option.some.inj hstep)
    exact h.observe _ _
  | callSend t request =>
    obtain ⟨later, hlater, heq⟩ := Option.map_eq_some_iff.mp hstep
    cases heq
    exact h.callSend hlater
  | send t gps => exact h.send (fun hready ↦ hconstructed hready fun heq ↦ by cases heq) hstep
  | sendFails t =>
    obtain ⟨later, hlater, heq⟩ := Option.map_eq_some_iff.mp hstep
    cases heq
    obtain ⟨shown, hsent⟩ := Process.send_of_sendFails hlater
    exact h.send (fun hready ↦ hconstructed hready fun heq ↦ by cases heq) hsent
  | arrive n incoming =>
    obtain ⟨later, hlater, heq⟩ := Option.map_eq_some_iff.mp hstep
    cases heq
    exact h.arrive (harrived n incoming rfl) hlater
  | receive n gps => exact h.receive (fun hready ↦ hconstructed hready fun heq ↦ by cases heq) hstep
  | forwardFails =>
    obtain ⟨later, hlater, heq⟩ := Option.map_eq_some_iff.mp hstep
    cases heq
    obtain ⟨shown, hsent⟩ := Process.receive_of_forwardFails hlater
    exact h.receive (fun hready ↦ hconstructed hready fun heq ↦ by cases heq) hsent
  | receiveMessage n j capacity => exact h.receiveMessage hstep

/-! ### What a step shows -/

/-- What is true of what a process shows: a packet it sends itself is the one of the request, a
frame it forwards is the copy of one that arrived and was accepted, a message is made of the frame
that arrived. -/
def Event.Sound (mac : Address) (arrived : Medium → Incoming → Prop) (constructed : Prop)
    (gateway : Bool) : Event → Prop
  | .quiet => True
  | .accepted n incoming reading => Accepted arrived constructed n incoming reading
  | .transmitted n bytes reading (.sent request found) =>
    bytes.length ≤ frameSize ∧ Outgoing mac gateway n request bytes ∧
      Quartered constructed n found reading bytes
  | .transmitted n bytes reading (.forwarded source under) =>
    bytes.length ≤ frameSize ∧ ∃ incoming : Incoming, incoming.source = source ∧
      Accepted arrived constructed n.other incoming under ∧ Propagated n.other incoming.data ∧
        (n = .raw → forwardsToNetwork incoming.data = true) ∧
          Stamped constructed n (copyBytes mac n.other incoming.data) reading bytes
  | .received n held capacity message =>
    Accepted arrived constructed n held.incoming held.reading ∧ Propagated n held.incoming.data ∧
      message = some (messageOf held.incoming.data capacity)
  | .delivered n held message =>
    Accepted arrived constructed n held.incoming held.reading ∧ Propagated n held.incoming.data ∧
      message = messageOf held.incoming.data maxSize

/-- What is true of a step stays true when more frames have arrived. -/
theorem Event.Sound.mono {arrived' : Medium → Incoming → Prop}
    (hmore : ∀ n incoming, arrived n incoming → arrived' n incoming) {gateway : Bool}
    {event : Event} (h : event.Sound mac arrived constructed gateway) :
    event.Sound mac arrived' constructed gateway := by
  cases event with
  | quiet => exact trivial
  | accepted n incoming reading => exact Accepted.mono hmore h
  | transmitted n bytes reading cause =>
    cases cause with
    | sent request found => exact h
    | forwarded source under =>
      obtain ⟨hlength, incoming, hsource, haccepted, hrest⟩ := h
      exact ⟨hlength, incoming, hsource, haccepted.mono hmore, hrest⟩
  | received n held capacity message => exact ⟨h.1.mono hmore, h.2⟩
  | delivered n held message => exact ⟨h.1.mono hmore, h.2⟩

/-- What a step of a receive thread shows. -/
theorem Process.Sound.receive_event (h : P.Sound mac arrived constructed) {n : Medium}
    {gps : UInt8} {event : Event}
    (hconstructed : constructed → P.gateway = true ∧ P.stage = .returned)
    (hstep : P.receive n gps = some (P', event)) :
    event.Sound mac arrived constructed P.gateway := by
  unfold Process.receive at hstep
  split at hstep
  case h_1 => cases hstep
  case h_2 incoming hphase =>
    obtain ⟨-, rfl⟩ := Prod.mk.inj (Option.some.inj hstep)
    cases halloc : (P.nic n).allocBuf with
    | none => exact trivial
    | some taken =>
      obtain ⟨nic, b⟩ := taken
      have htakes := Nic.takes_allocBuf halloc
      simp only [min_eq_left incoming.fits, List.take_length, htakes.setup.address,
        htakes.setup.reads]
      split_ifs with hshort hdrop htype
      · exact trivial
      · exact trivial
      · exact h.accepted (h.handler n incoming hphase) hconstructed (Bool.eq_false_iff.mpr hdrop)
      · exact trivial
  case h_4 incoming reading b send hphase =>
    obtain ⟨-, rfl⟩ := Prod.mk.inj (Option.some.inj hstep)
    have hown := h.ownClaim (n := n) (b := b) (by rw [hphase]; exact List.mem_singleton_self b)
    have hlent := h.lentClaim (n := n) (c := send.buffer)
      (by rw [hphase]; exact List.mem_singleton_self _)
    rw [hphase] at hown hlent
    cases send with
    | stamp c => exact trivial
    | release c => exact trivial
    | transmit c q =>
      refine ⟨Buffer.length_wire_le _, incoming, rfl, ?_⟩
      rw [Medium.other_other]
      refine ⟨hown.2.1, hown.2.2.1, fun hn ↦ hown.2.2.2 ?_, hlent⟩
      rw [← Medium.other_other n, hn]
      rfl
  case h_3 =>
    obtain ⟨-, rfl⟩ := Prod.mk.inj (Option.some.inj hstep)
    exact trivial
  case h_5 incoming reading b hphase =>
    have hown := h.ownClaim (n := n) (b := b) (by rw [hphase]; exact List.mem_singleton_self b)
    rw [hphase] at hown
    obtain ⟨hloaded, haccepted, hpropagated⟩ := hown
    obtain rfl : (P.notify n incoming reading b).2 = event := by rw [Option.some.inj hstep]
    rw [Process.notify, hloaded.unpack hpropagated.length]
    split_ifs with hport hwatched
    · simp only [delivery]
      split_ifs with hempty
      · exact trivial
      · exact ⟨haccepted, hpropagated, rfl⟩
    · exact trivial
    · exact trivial
  case h_6 =>
    obtain ⟨-, rfl⟩ := Prod.mk.inj (Option.some.inj hstep)
    exact trivial
  case h_7 =>
    obtain ⟨-, rfl⟩ := Prod.mk.inj (Option.some.inj hstep)
    exact trivial

/-- What a step shows follows from what is claimed of the buffers before it. -/
theorem Process.Sound.event (h : P.Sound mac arrived constructed) [DecidableEq τ]
    {action : ProcessAction τ} {event : Event}
    (hconstructed : constructed → action ≠ .construct → P.gateway = true ∧ P.stage = .returned)
    (hstep : P.step action = some (P', event)) :
    event.Sound mac arrived constructed P.gateway := by
  cases action with
  | construct =>
    obtain ⟨later, -, heq⟩ := Option.map_eq_some_iff.mp hstep
    cases heq
    exact trivial
  | attach port =>
    obtain ⟨later, -, heq⟩ := Option.map_eq_some_iff.mp hstep
    cases heq
    exact trivial
  | detach port =>
    obtain ⟨rfl, rfl⟩ := Prod.mk.inj (Option.some.inj hstep)
    exact trivial
  | watch port =>
    obtain ⟨rfl, rfl⟩ := Prod.mk.inj (Option.some.inj hstep)
    exact trivial
  | unwatch port =>
    obtain ⟨rfl, rfl⟩ := Prod.mk.inj (Option.some.inj hstep)
    exact trivial
  | callSend t request =>
    obtain ⟨later, -, heq⟩ := Option.map_eq_some_iff.mp hstep
    cases heq
    exact trivial
  | arrive n incoming =>
    obtain ⟨later, -, heq⟩ := Option.map_eq_some_iff.mp hstep
    cases heq
    exact trivial
  | send t gps =>
    simp only [Process.step, Process.send] at hstep
    split at hstep
    case h_1 => cases hstep
    case h_2 n request found send hphase =>
      have hclaim := h.appClaim hphase
      obtain ⟨-, rfl⟩ := Prod.mk.inj (Option.some.inj hstep)
      cases send with
      | stamp b => exact trivial
      | transmit b q => exact ⟨Buffer.length_wire_le _, hclaim⟩
      | release b => exact trivial
  | sendFails t =>
    obtain ⟨later, -, heq⟩ := Option.map_eq_some_iff.mp hstep
    cases heq
    exact trivial
  | forwardFails =>
    obtain ⟨later, -, heq⟩ := Option.map_eq_some_iff.mp hstep
    cases heq
    exact trivial
  | receive n gps =>
    exact h.receive_event (fun hready ↦ hconstructed hready fun heq ↦ by cases heq) hstep
  | receiveMessage n j capacity =>
    simp only [Process.step, Process.receiveMessage] at hstep
    split at hstep
    case h_1 => cases hstep
    case h_2 held hentry =>
      split_ifs at hstep
      obtain ⟨-, rfl⟩ := Prod.mk.inj (Option.some.inj hstep)
      have hin := List.mem_of_getElem? hentry
      have hclaim := h.governed.sound (.queue n) (n, held.b)
        (List.mem_map_of_mem (f := fun held : Held ↦ (n, held.b)) hin) held hin rfl
      obtain ⟨hloaded, haccepted, hpropagated⟩ := hclaim
      exact ⟨haccepted, hpropagated, hloaded.unpack hpropagated.length capacity⟩

end VehicleComm.Channel
