import VehicleComm.Network.Nic

/-!
# The protocol of one process

`protocol.h` over the two NICs of a process, with the receive handler of `nic.h`, as a step
function. A process has a NIC on the shared memory ring; the gateway creates a second one on the raw
socket in the constructor (`Stage`). Each NIC has a receive thread, which runs the handler,
`Protocol::update` and, through it, the forward to the other NIC (`HandlerPhase`); any number of
threads `τ` call `Protocol::send` (`AppPhase`). The steps are cut where threads of the process meet,
at the free lists, at the engines and at the reads of the GPS; in between a thread works on the
buffers it holds.

The observers are those of the one `Communicator` a process has, one entry for each port it listens
to. A buffer handed to it for a port that has an observer of messages (`watched`) becomes a message
at once; any other stays in its queue until `Protocol::receive`. An `Incoming` is the buffer that
the engine hands to the handler, with a mark of where it came from; marks, the readings kept past
their use, the buffers that were `lost` and the `Event` of a step are a record, which no step reads.

`sendto` may refuse a frame, on the socket that `start_receiving` has made non-blocking: `NIC::send`
then frees the buffer as if the frame were on its way, and nobody looks at what it returns
(`sendFails`, `forwardFails`). `write_slot` always writes.

Left out: the packets of the time synchronisation past `SptpProtocol::on_receive` (a thread of the
gateway may send one at any time, so the answers and requests it sends are among the sends), and the
destructor.
-/

set_option autoImplicit false
set_option relaxedAutoImplicit false

namespace VehicleComm.Channel

open Library Network

/-- The two NICs of a process: `_shm_nic` and `_socket_nic`. -/
inductive Medium
  | shm
  | raw
deriving DecidableEq

/-- The NIC a frame is forwarded to. -/
def Medium.other : Medium → Medium
  | .shm => .raw
  | .raw => .shm

/-- How far the constructor of `Protocol` is: the receive thread of `_shm_nic` runs, `_socket_nic`
is there, its receive thread runs, the functions for the quadrant are installed, `_instance` is set.
-/
inductive Stage
  | shmAttached
  | socketCreated
  | socketAttached
  | readInstalled
  | writeInstalled
  | returned
deriving DecidableEq

/-- What an engine hands to the receive handler. -/
structure Incoming where
  source : ℕ
  data : List UInt8
  fits : data.length ≤ frameSize
deriving DecidableEq

/-- Where the receive thread of a NIC is: outside the handler, at its start, in `Protocol::update`
before the frame is forwarded, sending the copy, before `notify`, and about to give the buffer back
by `NIC::free` or by `Protocol::free_buffer`. -/
inductive HandlerPhase
  | idle
  | handler (incoming : Incoming)
  | update (incoming : Incoming) (reading : UInt8) (b : Fin bufferSize)
  | forward (incoming : Incoming) (reading : UInt8) (b : Fin bufferSize) (send : SendPhase)
  | notify (incoming : Incoming) (reading : UInt8) (b : Fin bufferSize)
  | discard (b : Fin bufferSize)
  | freeBuffer (b : Fin bufferSize)
deriving DecidableEq

/-- `Protocol::Address`. -/
structure Endpoint where
  paddr : Address
  port : UInt16
deriving DecidableEq

/-- The arguments of `Protocol::send`, and what the clock shows in it. -/
structure SendRequest where
  fromPort : UInt16
  dst : Endpoint
  data : List UInt8
  ts : Int64
  kind : PacketKind
  now : Int64
deriving DecidableEq

/-- The timestamp that `send_via_nic` writes. -/
def SendRequest.stamp (request : SendRequest) : Int64 :=
  if request.ts ≠ 0 then request.ts else request.now

/-- Where a thread that calls `Protocol::send` is. `found` is what the buffer had as the quadrant of
a packet when it was taken. -/
inductive AppPhase
  | idle
  | sending (n : Medium) (request : SendRequest) (found : UInt8) (send : SendPhase)

/-- A buffer that the `Communicator` was handed. -/
structure Held where
  b : Fin bufferSize
  incoming : Incoming
  reading : UInt8
deriving DecidableEq

/-- What `Protocol::receive` returns. -/
structure Message where
  fromAddress : List UInt8
  fromPort : UInt16
  timestamp : Int64
  quadrant : UInt8
  data : List UInt8
deriving DecidableEq

/-- Why a frame was sent: by `Protocol::send`, or because another frame was forwarded. -/
inductive Cause
  | sent (request : SendRequest) (found : UInt8)
  | forwarded (source : ℕ) (reading : UInt8)
deriving DecidableEq

/-- What a step does that others can see: a message is received by a caller with room for `capacity`
bytes, or none as the buffer is too short, or it is delivered to the observers of messages. -/
inductive Event
  | quiet
  | accepted (n : Medium) (incoming : Incoming) (reading : UInt8)
  | transmitted (n : Medium) (bytes : List UInt8) (reading : UInt8) (cause : Cause)
  | received (n : Medium) (held : Held) (capacity : ℕ) (message : Option Message)
  | delivered (n : Medium) (held : Held) (message : Message)
deriving DecidableEq

structure Process (τ : Type*) where
  gateway : Bool
  stage : Stage
  nic : Medium → Nic
  receiver : Medium → HandlerPhase
  app : τ → AppPhase
  observers : List UInt16
  watched : List UInt16
  held : Medium → List Held
  lost : Medium → List (Fin bufferSize)

variable {τ : Type*}

/-- The state in which the constructor has started the receive thread of `_shm_nic`. -/
def Process.create (gateway : Bool) (mac : Address)
    (buffers : Medium → Fin bufferSize → Buffer) : Process τ where
  gateway := gateway
  stage := .shmAttached
  nic n := match n with
    | .shm => Nic.create .internal (buffers .shm)
    | .raw => Nic.create mac (buffers .raw)
  receiver _ := .idle
  app _ := .idle
  observers := []
  watched := []
  held _ := []
  lost _ := []

/-- `_socket_nic` is not null. -/
def Process.hasSocket (P : Process τ) : Bool := P.gateway && P.stage ≠ .shmAttached

/-- The receive thread of `_socket_nic` runs. -/
def Process.socketReceives (P : Process τ) : Bool := P.hasSocket && P.stage ≠ .socketCreated

def Process.setNic (P : Process τ) (n : Medium) (nic : Nic) : Process τ :=
  { P with nic := Function.update P.nic n nic }

def Process.setReceiver (P : Process τ) (n : Medium) (phase : HandlerPhase) : Process τ :=
  { P with receiver := Function.update P.receiver n phase }

@[simp] theorem Process.setNic_nic_self (P : Process τ) (n : Medium) (nic : Nic) :
    (P.setNic n nic).nic n = nic :=
  Function.update_self ..

theorem Process.setNic_nic_of_ne (P : Process τ) {n m : Medium} (nic : Nic) (hm : m ≠ n) :
    (P.setNic n nic).nic m = P.nic m :=
  Function.update_of_ne hm ..

@[simp] theorem Process.setNic_receiver (P : Process τ) (n : Medium) (nic : Nic) :
    (P.setNic n nic).receiver = P.receiver := rfl

@[simp] theorem Process.setReceiver_receiver_self (P : Process τ) (n : Medium)
    (phase : HandlerPhase) : (P.setReceiver n phase).receiver n = phase :=
  Function.update_self ..

theorem Process.setReceiver_receiver_of_ne (P : Process τ) {n m : Medium} (phase : HandlerPhase)
    (hm : m ≠ n) : (P.setReceiver n phase).receiver m = P.receiver m :=
  Function.update_of_ne hm ..

@[simp] theorem Process.setReceiver_nic (P : Process τ) (n : Medium) (phase : HandlerPhase) :
    (P.setReceiver n phase).nic = P.nic := rfl

/-! ### The constructor and the observers -/

/-- `Protocol::write_quadrant`. -/
def writeQuadrant (frame : Frame) (reading : UInt8) : Frame := frame.store 26 [reading]

/-- The next step of the constructor. A component has no raw socket. -/
def Process.construct (P : Process τ) : Option (Process τ) :=
  match P.stage with
  | .shmAttached =>
    if P.gateway then some { P with stage := .socketCreated }
    else some { P with stage := .returned }
  | .socketCreated => some { P with stage := .socketAttached }
  | .socketAttached =>
    some { P.setNic .raw { P.nic .raw with readQuadrant := packetQuadrant } with
      stage := .readInstalled }
  | .readInstalled =>
    some { P.setNic .raw { P.nic .raw with writeQuadrant := writeQuadrant } with
      stage := .writeInstalled }
  | .writeInstalled => some { P with stage := .returned }
  | .returned => none

/-- `Protocol::attach`, by the constructor of the `Communicator`, which is given a `Protocol`. -/
def Process.attach (P : Process τ) (port : UInt16) : Option (Process τ) :=
  if P.stage = .returned ∧ port ∉ P.observers then some { P with observers := port :: P.observers }
  else none

/-- `Protocol::detach`. -/
def Process.detach (P : Process τ) (port : UInt16) : Process τ :=
  { P with observers := P.observers.filter fun other ↦ other ≠ port }

/-- `Communicator::attach`, by an observer of messages such as a `SmartData`. -/
def Process.watch (P : Process τ) (port : UInt16) : Process τ :=
  { P with watched := port :: P.watched }

/-- `Communicator::detach`. -/
def Process.unwatch (P : Process τ) (port : UInt16) : Process τ :=
  { P with watched := P.watched.erase port }

/-- `NIC::owns`, which compares the address of a buffer with those of the pool. -/
def owns (nic : Medium) (buffer : Medium × Fin bufferSize) : Bool := buffer.1 = nic

/-- A buffer is given up without being put back. -/
def Process.lose (P : Process τ) (n : Medium) (b : Fin bufferSize) : Process τ :=
  { P with lost := Function.update P.lost n (b :: P.lost n) }

/-- `Protocol::free_buffer`, of buffer `b` in the pool of NIC `n`. Without an instance the buffer is
lost. -/
def Process.freeBuffer (P : Process τ) (n : Medium) (b : Fin bufferSize) : Process τ :=
  if P.stage = .returned then
    if owns .shm (n, b) then P.setNic .shm ((P.nic .shm).free b)
    else if P.hasSocket && owns .raw (n, b) then P.setNic .raw ((P.nic .raw).free b)
    else P.lose n b
  else P.lose n b

/-- A buffer is put back where it belongs, or lost. -/
theorem Process.freeBuffer_cases (P : Process τ) (n : Medium) (b : Fin bufferSize) :
    P.freeBuffer n b = P.setNic n ((P.nic n).free b) ∨ P.freeBuffer n b = P.lose n b := by
  unfold freeBuffer
  split_ifs with hreturned hshm hraw
  · obtain rfl : n = .shm := of_decide_eq_true hshm
    exact Or.inl rfl
  · rw [Bool.and_eq_true] at hraw
    obtain rfl : n = .raw := of_decide_eq_true hraw.2
    exact Or.inl rfl
  · exact Or.inr rfl
  · exact Or.inr rfl

/-- Once the constructor has returned no buffer of a NIC that exists is lost. -/
theorem Process.freeBuffer_of_returned {P : Process τ} (hreturned : P.stage = .returned)
    {n : Medium} (hsocket : n = .raw → P.gateway = true) (b : Fin bufferSize) :
    P.freeBuffer n b = P.setNic n ((P.nic n).free b) := by
  rw [freeBuffer, if_pos hreturned]
  cases n with
  | shm => rfl
  | raw =>
    have hthere : P.hasSocket = true := by simp [hasSocket, hsocket rfl, hreturned]
    rw [hthere]
    rfl

/-! ### Sending -/

/-- The writes of `send_via_nic` to the packet. The quadrant is not among them. -/
def fillPacket (frame : Frame) (request : SendRequest) : Frame :=
  ((((frame.store 22 (littleEndian 2 request.fromPort.toUInt64)).store 24
    (littleEndian 2 request.dst.port.toUInt64)).store 27 [request.kind.code]).store 28
      request.data).store 14 (littleEndian 8 request.stamp.toUInt64)

/-- `send_via_nic` up to the call of `NIC::send`. -/
def sendViaNic (nic : Nic) (request : SendRequest) : Option (Nic × Fin bufferSize) :=
  (nic.alloc request.dst.paddr proto (packetHeaderSize + request.data.length)).map fun taken ↦
    (taken.1.setData taken.2 (fillPacket (taken.1.buffers taken.2).data request), taken.2)

/-- The NIC that `Protocol::send` chooses. -/
def Process.route (P : Process τ) (dst : Address) : Medium :=
  if P.hasSocket && dst ≠ .internal then .raw else .shm

/-- A thread calls `Protocol::send`, which returns at once when it gets no buffer. -/
def Process.callSend [DecidableEq τ] (P : Process τ) (t : τ) (request : SendRequest) :
    Option (Process τ) :=
  match P.app t with
  | .idle =>
    if P.stage = .returned then
      match sendViaNic (P.nic (P.route request.dst.paddr)) request with
      | none => some P
      | some (nic, b) =>
        some { P.setNic (P.route request.dst.paddr) nic with
          app := Function.update P.app t
            (.sending (P.route request.dst.paddr) request
              (packetQuadrant ((P.nic (P.route request.dst.paddr)).buffers b).data.bytes)
              (.stamp b)) }
    else none
  | .sending _ _ _ _ => none

/-- What `engine_current_quadrant` returns: the raw socket engine asks the GPS. -/
def currentQuadrant : Medium → UInt8 → UInt8
  | .shm, _ => quadrantNone
  | .raw, gps => gps

/-- The frame that a step of `NIC::send` hands to the engine. -/
def transmission (n : Medium) (nic : Nic) (cause : Cause) : SendPhase → Event
  | .transmit b reading => .transmitted n (nic.buffers b).wire reading cause
  | .stamp _ | .release _ => .quiet

/-- The next step of a thread in `Protocol::send`. -/
def Process.send [DecidableEq τ] (P : Process τ) (t : τ) (gps : UInt8) :
    Option (Process τ × Event) :=
  match P.app t with
  | .idle => none
  | .sending n request found phase =>
    let next := (P.nic n).sendStep (currentQuadrant n gps) phase
    some
      ({ P.setNic n next.1 with
          app := Function.update P.app t (next.2.elim .idle (.sending n request found)) },
        transmission n (P.nic n) (.sent request found) phase)

/-- `sendto` fails in `NIC::send` of a thread in `Protocol::send`. -/
def Process.sendFails [DecidableEq τ] (P : Process τ) (t : τ) : Option (Process τ) :=
  match P.app t with
  | .sending .raw request found (.transmit b _) =>
    some { P with app := Function.update P.app t (.sending .raw request found (.release b)) }
  | _ => none

/-! ### Receiving -/

/-- `engine_should_drop_frame`: the ring drops nothing, the raw socket drops its own frames and
those of another quadrant. `gps` is the quadrant of the receiver. -/
def engineShouldDropFrame (n : Medium) (bytes : List UInt8) (localAddress : Address)
    (originQuadrant gps : UInt8) : Bool :=
  match n with
  | .shm => false
  | .raw =>
    etherSrc bytes = localAddress.octets ||
      (gps ≠ quadrantNone && originQuadrant ≠ quadrantNone && gps ≠ originQuadrant)

/-- The receive handler of `NIC` up to `notify`. -/
def Process.handle (P : Process τ) (n : Medium) (incoming : Incoming) (gps : UInt8) :
    Process τ × Event :=
  match (P.nic n).allocBuf with
  | none => (P.setReceiver n .idle, .quiet)
  | some (nic, b) =>
    let size := min incoming.data.length frameSize
    let frame := (nic.buffers b).data.store 0 (incoming.data.take size)
    if size < headerSize then
      ((P.setNic n (nic.setData b frame)).setReceiver n (.discard b), .quiet)
    else if engineShouldDropFrame n frame.bytes nic.address (nic.readQuadrant frame.bytes) gps then
      ((P.setNic n (nic.setData b frame)).setReceiver n (.discard b), .quiet)
    else if etherType frame.bytes = proto then
      ((P.setNic n (nic.setBuffer b ⟨frame, size - headerSize⟩)).setReceiver n
        (.update incoming gps b), .accepted n incoming gps)
    else
      ((P.setNic n (nic.setBuffer b ⟨frame, size - headerSize⟩)).setReceiver n (.discard b), .quiet)

/-- `src_mac == _address._paddr && dst_mac == BROADCAST`: the test of a gateway before it puts a
frame of its ring on the network. -/
def forwardsToNetwork (bytes : List UInt8) : Bool :=
  etherSrc bytes = Address.internal.octets && etherDst bytes = Address.broadcast.octets

/-- The copy of a frame of the ring that goes to the network: a new header, the same payload. -/
def forwardToNetwork (raw : Nic) (buffer : Buffer) : Option (Nic × Fin bufferSize) :=
  (raw.alloc .broadcast proto buffer.size).map fun taken ↦
    (taken.1.setData taken.2 ((taken.1.buffers taken.2).data.store headerSize
      (slice buffer.data.bytes headerSize buffer.size)), taken.2)

/-- The copy of a frame of the network that goes to the ring: the whole frame. The header that
`alloc` writes is overwritten. -/
def forwardToRing (shm : Nic) (buffer : Buffer) : Option (Nic × Fin bufferSize) :=
  (shm.alloc ⟨etherDst buffer.data.bytes, length_slice (by rw [buffer.data.length_bytes]; decide)⟩
    proto buffer.size).map fun taken ↦
      (taken.1.setData taken.2 ((taken.1.buffers taken.2).data.store 0
        (buffer.data.bytes.take (headerSize + buffer.size))), taken.2)

/-- The copy that `Protocol::update` makes of a buffer of NIC `n` in the other NIC; none if the
frame is not forwarded or no buffer can be taken. -/
def Process.forwardCopy (P : Process τ) (n : Medium) (buffer : Buffer) :
    Option (Nic × Fin bufferSize) :=
  match n with
  | .shm =>
    if P.hasSocket && forwardsToNetwork buffer.data.bytes then forwardToNetwork (P.nic .raw) buffer
    else none
  | .raw => forwardToRing (P.nic .shm) buffer

/-- `Protocol::update` up to the forward. A packet of the time synchronisation that comes from the
network ends here. -/
def Process.update (P : Process τ) (n : Medium) (incoming : Incoming) (reading : UInt8)
    (b : Fin bufferSize) : Process τ :=
  let buffer := (P.nic n).buffers b
  if buffer.size < packetHeaderSize then P.setReceiver n (.freeBuffer b)
  else if n = .raw ∧ isSptp buffer.data.bytes then P.setReceiver n (.freeBuffer b)
  else
    match P.forwardCopy n buffer with
    | none => P.setReceiver n (.notify incoming reading b)
    | some (nic, copy) =>
      (P.setNic n.other nic).setReceiver n (.forward incoming reading b (.stamp copy))

/-- `NIC::send` of the copy, called by `Protocol::update`. -/
def Process.forward (P : Process τ) (n : Medium) (incoming : Incoming) (reading : UInt8)
    (b : Fin bufferSize) (send : SendPhase) (gps : UInt8) : Process τ × Event :=
  let next := (P.nic n.other).sendStep (currentQuadrant n.other gps) send
  ((P.setNic n.other next.1).setReceiver n
      (next.2.elim (.notify incoming reading b) (.forward incoming reading b)),
    transmission n.other (P.nic n.other) (.forwarded incoming.source reading) send)

/-- `sendto` fails in `NIC::send` of the copy of a frame of the ring. -/
def Process.forwardFails (P : Process τ) : Option (Process τ) :=
  match P.receiver .shm with
  | .forward incoming reading b (.transmit copy _) =>
    some (P.setReceiver .shm (.forward incoming reading b (.release copy)))
  | _ => none

/-- The message that `Protocol::receive` makes of a buffer for a caller with room for `capacity`
bytes; none of a buffer that is too short. -/
def unpack (buffer : Buffer) (capacity : ℕ) : Option Message :=
  if buffer.size < packetHeaderSize then none
  else
    some
      { fromAddress := etherSrc buffer.data.bytes
        fromPort := packetSrcPort buffer.data.bytes
        timestamp := packetTimestamp buffer.data.bytes
        quadrant := packetQuadrant buffer.data.bytes
        data := packetData buffer.data.bytes (min (buffer.size - packetHeaderSize) capacity) }

/-- `MessageHeader::MAX_SIZE`. -/
def maxSize : ℕ := 1400

/-- What `Communicator::update` hands on to the observers of messages: not an empty message. -/
def delivery (n : Medium) (held : Held) : Option Message → Event
  | none => .quiet
  | some message => if message.data = [] then .quiet else .delivered n held message

/-- `_observed.notify`: the `Communicator` gets the buffer if it listens to the port. It makes a
message of it if somebody observes the messages of the port, and queues it otherwise. -/
def Process.notify (P : Process τ) (n : Medium) (incoming : Incoming) (reading : UInt8)
    (b : Fin bufferSize) : Process τ × Event :=
  if packetDstPort ((P.nic n).buffers b).data.bytes ∈ P.observers then
    if packetDstPort ((P.nic n).buffers b).data.bytes ∈ P.watched then
      (P.setReceiver n (.freeBuffer b),
        delivery n ⟨b, incoming, reading⟩ (unpack ((P.nic n).buffers b) maxSize))
    else
      ({ P.setReceiver n .idle with
        held := Function.update P.held n (P.held n ++ [⟨b, incoming, reading⟩]) }, .quiet)
  else (P.setReceiver n (.freeBuffer b), .quiet)

/-- The next step of the receive thread of NIC `n`. -/
def Process.receive (P : Process τ) (n : Medium) (gps : UInt8) : Option (Process τ × Event) :=
  match P.receiver n with
  | .idle => none
  | .handler incoming => some (P.handle n incoming gps)
  | .update incoming reading b => some (P.update n incoming reading b, .quiet)
  | .forward incoming reading b send => some (P.forward n incoming reading b send gps)
  | .notify incoming reading b => some (P.notify n incoming reading b)
  | .discard b => some ((P.setNic n ((P.nic n).free b)).setReceiver n .idle, .quiet)
  | .freeBuffer b => some ((P.freeBuffer n b).setReceiver n .idle, .quiet)

/-- The receive thread of NIC `n` calls the handler. -/
def Process.arrive (P : Process τ) (n : Medium) (incoming : Incoming) : Option (Process τ) :=
  match P.receiver n with
  | .idle =>
    if n = .raw → P.socketReceives then some (P.setReceiver n (.handler incoming)) else none
  | _ => none

/-- `Communicator::receive` of the buffer at place `j` of the queue. There is a `Communicator` only
once the constructor has returned. -/
def Process.receiveMessage (P : Process τ) (n : Medium) (j capacity : ℕ) :
    Option (Process τ × Event) :=
  match (P.held n)[j]? with
  | none => none
  | some held =>
    if P.stage = .returned then
      some
        ({ P.freeBuffer n held.b with held := Function.update P.held n ((P.held n).eraseIdx j) },
          .received n held capacity (unpack ((P.nic n).buffers held.b) capacity))
    else none

inductive ProcessAction (τ : Type*)
  | construct
  | attach (port : UInt16)
  | detach (port : UInt16)
  | watch (port : UInt16)
  | unwatch (port : UInt16)
  | callSend (t : τ) (request : SendRequest)
  | send (t : τ) (gps : UInt8)
  | sendFails (t : τ)
  | arrive (n : Medium) (incoming : Incoming)
  | receive (n : Medium) (gps : UInt8)
  | forwardFails
  | receiveMessage (n : Medium) (j capacity : ℕ)

def Process.step [DecidableEq τ] (P : Process τ) : ProcessAction τ → Option (Process τ × Event)
  | .construct => P.construct.map (·, .quiet)
  | .attach port => (P.attach port).map (·, .quiet)
  | .detach port => some (P.detach port, .quiet)
  | .watch port => some (P.watch port, .quiet)
  | .unwatch port => some (P.unwatch port, .quiet)
  | .callSend t request => (P.callSend t request).map (·, .quiet)
  | .send t gps => P.send t gps
  | .sendFails t => (P.sendFails t).map (·, .quiet)
  | .arrive n incoming => (P.arrive n incoming).map (·, .quiet)
  | .receive n gps => P.receive n gps
  | .forwardFails => P.forwardFails.map (·, .quiet)
  | .receiveMessage n j capacity => P.receiveMessage n j capacity

/-! ### A frame that is refused -/

variable {P P' : Process τ}

theorem Process.sendFails_cases [DecidableEq τ] {t : τ} (hstep : P.sendFails t = some P') :
    ∃ request found b reading, P.app t = .sending .raw request found (.transmit b reading) ∧
      P' =
        { P with app := Function.update P.app t (.sending .raw request found (.release b)) } := by
  unfold sendFails at hstep
  split at hstep
  case h_1 request found b reading hphase =>
    exact ⟨request, found, b, reading, hphase, (Option.some.inj hstep).symm⟩
  case h_2 => cases hstep

theorem Process.forwardFails_cases (hstep : P.forwardFails = some P') :
    ∃ incoming under b copy reading,
      P.receiver .shm = .forward incoming under b (.transmit copy reading) ∧
        P' = P.setReceiver .shm (.forward incoming under b (.release copy)) := by
  unfold forwardFails at hstep
  split at hstep
  case h_1 incoming under b copy reading hphase =>
    exact ⟨incoming, under, b, copy, reading, hphase, (Option.some.inj hstep).symm⟩
  case h_2 => cases hstep

/-- A thread goes on as if its frame had been sent. -/
theorem Process.send_of_sendFails [DecidableEq τ] {t : τ} (hstep : P.sendFails t = some P') :
    ∃ shown, P.send t 0 = some (P', shown) := by
  obtain ⟨request, found, b, reading, hphase, rfl⟩ := sendFails_cases hstep
  have hsame : P.setNic .raw (P.nic .raw) = P := by rw [setNic, Function.update_eq_self]
  refine ⟨.transmitted .raw ((P.nic .raw).buffers b).wire reading (.sent request found), ?_⟩
  simp only [send, hphase, Nic.sendStep, hsame, Option.elim_some, transmission]

/-- The receive thread goes on as if the copy had been sent. -/
theorem Process.receive_of_forwardFails (hstep : P.forwardFails = some P') :
    ∃ shown, P.receive .shm 0 = some (P', shown) := by
  obtain ⟨incoming, under, b, copy, reading, hphase, rfl⟩ := forwardFails_cases hstep
  have hsame : P.setNic .raw (P.nic .raw) = P := by rw [setNic, Function.update_eq_self]
  refine ⟨.transmitted .raw ((P.nic .raw).buffers copy).wire reading
    (.forwarded incoming.source under), ?_⟩
  simp only [receive, hphase, forward, Medium.other, Nic.sendStep, hsame, Option.elim_some,
    transmission]

end VehicleComm.Channel
