import VehicleComm.Traffic.Messages

/-!
# What a message is cut to

`TypedMessage` of `message.h` is a payload of `sizeof(Payload)` bytes and a size, which its
constructors and the setter set apart from it. `Communicator::send` hands `size()` bytes from
`data()` on to `Protocol::send`, which refuses what does not fit into a frame. On the other side
`Communicator::update` has room for `MessageHeader::MAX_SIZE` bytes, and `Communicator::receive` for
the payload of its caller. Both cut what is longer, and drop what is empty.

So what a receiver obtains of a message is all of it if and only if the message has a byte at least
and no more than there is room for (`obtains_all_iff`). `Communicator::send` takes longer ones
(`large_message_cut`).

`sizeof(Header) + size` is below `2 ^ 32` here; with a larger size `send_via_nic` would write behind
its buffer.
-/

set_option autoImplicit false
set_option relaxedAutoImplicit false

namespace VehicleComm.Traffic

open Library Network Channel SharedMemory

/-! ### Messages of an application -/

/-- `TypedMessage<Payload>` with a payload of `k` bytes. -/
structure TypedMessage (k : ℕ) where
  size : UInt32
  payload : List UInt8
  length_payload : payload.length = k

namespace TypedMessage

variable {k : ℕ}

/-- `TypedMessage(payload)`. -/
def ofPayload (payload : List UInt8) : TypedMessage payload.length where
  size := UInt32.ofNat payload.length
  payload := payload
  length_payload := rfl

/-- The `size()` bytes from `data()` on. Behind the payload is other memory. -/
def bytes (message : TypedMessage k) (memory : ℕ → UInt8) : List UInt8 :=
  message.payload.take message.size.toNat ++ (List.range (message.size.toNat - k)).map memory

@[simp] theorem length_bytes (message : TypedMessage k) (memory : ℕ → UInt8) :
    (message.bytes memory).length = message.size.toNat := by
  simp only [bytes, List.length_append, List.length_take, message.length_payload, List.length_map,
    List.length_range]
  omega

/-- A message made of a payload is that payload. -/
theorem bytes_ofPayload {payload : List UInt8} (hsize : payload.length < 2 ^ 32)
    (memory : ℕ → UInt8) : (ofPayload payload).bytes memory = payload := by
  have htoNat : (UInt32.ofNat payload.length).toNat = payload.length :=
    UInt32.toNat_ofNat_of_lt' hsize
  simp only [bytes, ofPayload, htoNat, List.take_length, Nat.sub_self, List.range_zero,
    List.map_nil, List.append_nil]

/-- `Address::logical_broadcast()`. -/
def logicalBroadcast : Endpoint := ⟨.broadcast, 0xFFFF⟩

/-- What `Communicator::send` asks `Protocol::send` for, with its stamp and the time in there. -/
def request (message : TypedMessage k) (memory : ℕ → UInt8) (fromPort : UInt16)
    (stamp now : Int64) : SendRequest where
  fromPort := fromPort
  dst := logicalBroadcast
  data := message.bytes memory
  ts := stamp
  kind := .data
  now := now

/-- `send_via_nic` refuses exactly the messages that do not fit into a frame, while a buffer is
free. -/
theorem isSome_sendViaNic_iff (message : TypedMessage k) (memory : ℕ → UInt8) (fromPort : UInt16)
    (stamp now : Int64) {nic : Nic} (hfree : nic.freeList ≠ []) :
    (sendViaNic nic (message.request memory fromPort stamp now)).isSome = true ↔
      packetHeaderSize + message.size.toNat ≤ mtu := by
  rw [sendViaNic, Option.isSome_map, Option.isSome_iff_ne_none, ne_eq, Nic.alloc_eq_none_iff]
  simp only [request, length_bytes, hfree, or_false, not_lt]

end TypedMessage

/-! ### What a receiver obtains -/

/-- The message that the observers of messages are handed, or that `Communicator::receive` returns
`true` for. -/
def obtained : Event → Option Message
  | .delivered _ _ message => some message
  | .received _ _ _ (some message) => if message.data = [] then none else some message
  | _ => none

/-- The application obtains a message with just these bytes. -/
def Obtains (event : Event) (bytes : List UInt8) : Prop :=
  ∃ message, obtained event = some message ∧ message.data = bytes

section Taking

variable {τ : Type*}

/-- The step makes a message of the frame of an index, with room for some bytes: in
`Communicator::update` when there is an observer of broadcast messages, or in
`Communicator::receive`. -/
inductive Takes (P : Process τ) (n : Medium) (source : ℕ) : ProcessAction τ → ℕ → Prop
  | observed {incoming : Incoming} {reading gps : UInt8} {b : Fin bufferSize} :
    P.receiver n = .notify incoming reading b → incoming.source = source →
      TypedMessage.logicalBroadcast.port ∈ P.observers →
        TypedMessage.logicalBroadcast.port ∈ P.watched → Takes P n source (.receive n gps) maxSize
  | called {held : Held} {j capacity : ℕ} :
    (P.held n)[j]? = some held → held.incoming.source = source →
      Takes P n source (.receiveMessage n j capacity) capacity

/-- What is obtained of a frame with the packet of a request: as much of its data as there is room
for, unless that is nothing. Assumes: the packet is a broadcast, and so is every frame of the index
that arrives. -/
theorem obtained_of_takes [DecidableEq τ] {P : Process τ} {mac : Address}
    {arrived : Medium → Incoming → Prop} {constructed : Prop} (h : P.Sound mac arrived constructed)
    {n : Medium} {source : ℕ} (request : SendRequest)
    (hport : request.dst.port = TypedMessage.logicalBroadcast.port)
    (hcarries : ∀ incoming, arrived n incoming → incoming.source = source →
      Carries request incoming.data)
    {action : ProcessAction τ} {capacity : ℕ} (htakes : Takes P n source action capacity)
    {next : Process τ × Event} (hstep : P.step action = some next) :
    (obtained next.2).map Message.data =
      if request.data.take capacity = [] then none else some (request.data.take capacity) := by
  cases htakes with
  | @observed incoming reading gps b hphase hsource hobserved hwatched =>
    have hclaim := h.ownClaim (n := n) (b := b) (by rw [hphase]; exact List.mem_singleton_self b)
    rw [hphase] at hclaim
    obtain ⟨hloaded, haccepted, hpropagated⟩ := hclaim
    have hpacket := hcarries incoming haccepted.1 hsource
    have hdst : packetDstPort ((P.nic n).buffers b).data.bytes =
        TypedMessage.logicalBroadcast.port := by
      rw [hloaded.packetDstPort hpropagated.length, packetDstPort_of_slice hpacket.dstPort, hport]
    have hreceive : P.receive n gps = some next := hstep
    simp only [Process.receive, hphase, Process.notify, hdst, hobserved, hwatched,
      if_true] at hreceive
    obtain rfl := Option.some.inj hreceive
    rw [hloaded.unpack hpropagated.length, hpacket.messageOf, delivery]
    split_ifs
    · rfl
    · rfl
  | @called held j capacity hentry hsource =>
    have hclaim := h.governed.sound (.queue n) (n, held.b) (List.mem_map_of_mem
      (f := fun held : Held ↦ (n, held.b)) (List.mem_of_getElem? hentry)) held
        (List.mem_of_getElem? hentry) rfl
    obtain ⟨hloaded, haccepted, hpropagated⟩ := hclaim
    have hpacket := hcarries held.incoming haccepted.1 hsource
    have hreceive : P.receiveMessage n j capacity = some next := hstep
    simp only [Process.receiveMessage, hentry] at hreceive
    split_ifs at hreceive
    obtain rfl := Option.some.inj hreceive
    have hmessage : unpack ((P.nic n).buffers held.b) capacity =
        some (messageOf held.incoming.data capacity) := hloaded.unpack hpropagated.length capacity
    rw [hmessage, hpacket.messageOf, obtained]
    split_ifs
    · rfl
    · rfl

end Taking

/-- What fits into the room is obtained as it is, unless it is empty. -/
theorem take_or_none_iff (bytes : List UInt8) (capacity : ℕ) :
    (if bytes.take capacity = [] then none else some (bytes.take capacity)) = some bytes ↔
      1 ≤ bytes.length ∧ bytes.length ≤ capacity := by
  constructor
  · intro hall
    split_ifs at hall with hempty
    have hwhole := Option.some.inj hall
    rw [hwhole] at hempty
    exact ⟨List.length_pos_iff.mpr hempty, List.take_eq_self_iff bytes |>.mp hwhole⟩
  · rintro ⟨hpos, hfits⟩
    rw [List.take_of_length_le hfits, if_neg (List.length_pos_iff.mp hpos)]

section Fleet

variable {V : Type*} {m : ℕ} {τ : Type*} [DecidableEq V] [DecidableEq τ] {mac : V → Address}
  {F : Fleet V m τ} {v : V} {p : Fin (m + 1)} {n : Medium}

/-- Of every run, every message that an application sends, and every process that makes a message of
a frame that goes back to it. It obtains all bytes if and only if there is one, and no more than
there is room for. -/
theorem obtains_all_iff {buffers : V → Fin (m + 1) → Medium → Fin bufferSize → Buffer}
    (hrun : Reaches Fleet.step Unguarded (Fleet.create mac buffers) F) {k : ℕ}
    {sent : TypedMessage k} {memory : ℕ → UInt8} {fromPort : UInt16} {stamp now : Int64}
    {source : ℕ} {route : Route V}
    (hroute : F.Conveys v n source (sent.request memory fromPort stamp now) route)
    {action : ProcessAction τ} {capacity : ℕ}
    (htakes : Takes (F.process v p) n source action capacity)
    {next : Process τ × Event} (hstep : (F.process v p).step action = some next) :
    Obtains next.2 (sent.bytes memory) ↔ 1 ≤ sent.size.toNat ∧ sent.size.toNat ≤ capacity := by
  have h : F.Sound mac False := Fleet.sound_of_reaches (fun _ _ _ hfalse ↦ hfalse.elim) hrun
  have hobtained := obtained_of_takes (h.process v p) (sent.request memory fromPort stamp now) rfl
    (fun incoming harrived hsource ↦ (hroute.told h harrived hsource).packet) htakes hstep
  have hdata : (sent.request memory fromPort stamp now).data = sent.bytes memory := rfl
  rw [hdata] at hobtained
  rw [← sent.length_bytes memory, ← take_or_none_iff, ← hobtained, Option.map_eq_some_iff]
  rfl

end Fleet

/-! ### A payload that is too large -/

def payloadRequest (payload : List UInt8) : SendRequest :=
  (TypedMessage.ofPayload payload).request (fun _ ↦ 0) 5 1 9

/-- A component sends a payload, and the frame has come to `Communicator::update` in another
component of the vehicle, in which a `SmartData` observes the messages. -/
def payloadActions (payload : List UInt8) : List (FleetAction Bool 2 Unit) :=
  setUpActions false ++ [FleetAction.act false listener (ProcessAction.watch 0xFFFF),
    FleetAction.act false sender (ProcessAction.callSend () (payloadRequest payload))] ++
      List.replicate 3 (FleetAction.act false sender (ProcessAction.send () 0)) ++
        FleetAction.read false listener 0 ::
          List.replicate 2 (FleetAction.act false listener (ProcessAction.receive .shm 0))

/-- The frame that a receive thread is about to hand on. -/
def noticed : HandlerPhase → Option ℕ
  | .notify incoming _ _ => some incoming.source
  | _ => none

/-- After these actions: the frame that is about to be handed on, the ports, the frames of the ring,
and the length of what is obtained in the next step. -/
def payloadTaken (payload : List UInt8) :
    Option (Option ℕ × List (List UInt16) × List Cause × Option ℕ) :=
  (run Fleet.step Unguarded pair (payloadActions payload)).map fun F ↦
    (noticed ((F.process false listener).receiver .shm),
      [(F.process false listener).observers, (F.process false listener).watched],
        (F.ring false).map RingEntry.cause,
          ((F.process false listener).step (.receive .shm 0)).bind fun next ↦
            (obtained next.2).map fun message ↦ message.data.length)

theorem exists_of_payloadTaken {payload : List UInt8} {found : UInt8} {count : ℕ}
    (htaken : payloadTaken payload =
      some (some 0, [[0xFFFF], [0xFFFF]], [.sent (payloadRequest payload) found], some count)) :
    ∃ F : Fleet Bool 2 Unit, Reaches Fleet.step Unguarded pair F ∧
      F.Conveys false .shm 0 (payloadRequest payload) (.ring found) ∧ ∃ next,
        Takes (F.process false listener) .shm 0 (.receive .shm 0) maxSize ∧
          (F.process false listener).step (.receive .shm 0) = some next ∧
            ∃ message, obtained next.2 = some message ∧ message.data.length = count := by
  obtain ⟨F, hF, hends⟩ := Option.map_eq_some_iff.mp htaken
  simp only [Prod.mk.injEq, List.cons.injEq, and_true] at hends
  obtain ⟨hnoticed, ⟨hobservers, hwatched⟩, hcauses, hobtained⟩ := hends
  obtain ⟨next, hstep, hmessage⟩ := Option.bind_eq_some_iff.mp hobtained
  obtain ⟨message, hshown, hlength⟩ := Option.map_eq_some_iff.mp hmessage
  obtain ⟨entry, hring, hcause⟩ := List.map_eq_singleton_iff.mp hcauses
  refine ⟨F, reaches_of_run _ hF, .sent (by rw [hring]; rfl) hcause, next, ?_, hstep, message,
    hshown, hlength⟩
  unfold noticed at hnoticed
  split at hnoticed
  case h_2 => contradiction
  case h_1 incoming reading b hphase =>
    refine .observed hphase (Option.some.inj hnoticed) ?_ ?_
    · rw [hobservers]
      exact List.mem_singleton_self _
    · rw [hwatched]
      exact List.mem_singleton_self _

/-- `obtains_all_iff` for a payload of three bytes. -/
theorem obtains_all_iff_three : ∃ (F : Fleet Bool 2 Unit) (next : Process Unit × Event),
    Reaches Fleet.step Unguarded pair F ∧
      (F.process false listener).step (.receive .shm 0) = some next ∧
        Obtains next.2 [1, 2, 3] := by
  have htaken : payloadTaken [1, 2, 3] = some (some 0, [[0xFFFF], [0xFFFF]],
      [.sent (payloadRequest [1, 2, 3]) 0], some 3) := by decide +kernel
  obtain ⟨F, hrun, hroute, next, htakes, hstep, -⟩ := exists_of_payloadTaken htaken
  have hall := (obtains_all_iff hrun hroute htakes hstep).mpr (by decide)
  rw [TypedMessage.bytes_ofPayload (by decide)] at hall
  exact ⟨F, next, hrun, hstep, hall⟩

/-- A payload of 1450 bytes is sent, and the observer obtains 1400. -/
theorem large_message_cut : ∃ (F : Fleet Bool 2 Unit) (route : Route Bool)
    (next : Process Unit × Event), Reaches Fleet.step Unguarded pair F ∧
      F.Conveys false .shm 0 (payloadRequest (List.replicate 1450 7)) route ∧
        Takes (F.process false listener) .shm 0 (.receive .shm 0) maxSize ∧
          (F.process false listener).step (.receive .shm 0) = some next ∧
            (∃ message, obtained next.2 = some message ∧ message.data.length = 1400) ∧
              ¬ Obtains next.2 (List.replicate 1450 7) := by
  have htaken : payloadTaken (List.replicate 1450 7) = some (some 0, [[0xFFFF], [0xFFFF]],
      [.sent (payloadRequest (List.replicate 1450 7)) 0], some 1400) := by decide +kernel
  obtain ⟨F, hrun, hroute, next, htakes, hstep, message, hmessage, hlength⟩ :=
    exists_of_payloadTaken htaken
  refine ⟨F, _, next, hrun, hroute, htakes, hstep, ⟨message, hmessage, hlength⟩, ?_⟩
  rintro ⟨other, hother, hdata⟩
  obtain rfl : message = other := Option.some.inj (hmessage.symm.trans hother)
  rw [hdata, List.length_replicate] at hlength
  exact absurd hlength (by decide)

end VehicleComm.Traffic
