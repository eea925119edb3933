import VehicleComm.Traffic.Provenance

/-!
# What an application receives

A message that a `Communicator` hands to its application, on request or to an observer of messages,
is made of a frame that arrived, and says what the send it goes back to asked for
(`Fleet.Sound.gets`): the port of the sender, its timestamp, and its data up to the room there is
for it. The address is that of the sending vehicle, or the internal one within the vehicle.

The quadrant is the one field that the send does not decide. A message that came over the network
carries the quadrant under which the gateway of the sender put it on the segment, which is that of
the gateway that accepted it, when both could read their quadrant (`network_quadrant`); a
re-injection into the ring leaves the bytes as they are. Assumed is that a process handles frames
only when its constructor has returned (`AfterConstruction`): before that a gateway neither writes
nor compares quadrants (`Channel.Construction`).

Nothing else depends on what the buffers held before: in two runs that start with different contents
of the pools a send is received with the same message, but for the quadrant of one that came over
the ring alone, which nobody writes (`received_alike`).
-/

set_option autoImplicit false
set_option relaxedAutoImplicit false

namespace VehicleComm.Traffic

open Library Network Channel SharedMemory

variable {V : Type*} {m : ℕ} {τ : Type*} {mac : V → Address} {constructed : Prop}
  {F : Fleet V m τ} {v : V} {p : Fin (m + 1)} {n : Medium} {held : Held} {capacity : ℕ}
  {message : Message}

/-- The application of process `p` got a message for which it had room for `capacity` bytes, by
`Communicator::receive` or as an observer of messages. -/
def Fleet.Gets (F : Fleet V m τ) (v : V) (p : Fin (m + 1)) (n : Medium) (held : Held)
    (capacity : ℕ) (message : Message) : Prop :=
  .received n held capacity (some message) ∈ F.shown v p ∨
    capacity = maxSize ∧ .delivered n held message ∈ F.shown v p

/-- A message is made of a frame that arrived and was accepted. -/
theorem Fleet.Sound.gets (h : F.Sound mac constructed)
    (hgets : F.Gets v p n held capacity message) :
    Accepted (F.Arrived v p) (constructed ∧ p = gatewaySlot) n held.incoming held.reading ∧
      Propagated n held.incoming.data ∧ message = messageOf held.incoming.data capacity := by
  rcases hgets with hreceived | ⟨rfl, hdelivered⟩
  · obtain ⟨haccepted, hpropagated, hmessage⟩ := h.shown v p _ hreceived
    exact ⟨haccepted, hpropagated, Option.some.inj hmessage⟩
  · exact h.shown v p _ hdelivered

/-- What an event hands to the application: the NIC and the source of the frame, the room there was,
and the message. -/
def messageShown : Event → Option (Medium × ℕ × ℕ × Message)
  | .received n held capacity (some message) => some (n, held.incoming.source, capacity, message)
  | .delivered n held message => some (n, held.incoming.source, maxSize, message)
  | _ => none

theorem Fleet.gets_of_shown {source : ℕ}
    (hshown : (n, source, capacity, message) ∈ (F.shown v p).filterMap messageShown) :
    ∃ held, held.incoming.source = source ∧ F.Gets v p n held capacity message := by
  obtain ⟨event, hevent, hmessage⟩ := List.mem_filterMap.mp hshown
  unfold messageShown at hmessage
  split at hmessage
  case h_1 n held capacity message =>
    cases hmessage
    exact ⟨held, rfl, Or.inl hevent⟩
  case h_2 n held message =>
    cases hmessage
    exact ⟨held, rfl, Or.inr ⟨rfl, hevent⟩⟩
  case h_3 => cases hmessage

/-! ### Messages and routes -/

def Route.quadrant : Route V → UInt8
  | .ring found => found
  | .segment _ reading => reading

/-- The message of a packet that came a route, for a caller with room for `capacity` bytes. -/
def Route.delivers (mac : V → Address) (route : Route V) (request : SendRequest) (capacity : ℕ) :
    Message where
  fromAddress := (route.address mac).octets
  fromPort := request.fromPort
  timestamp := request.stamp
  quadrant := route.quadrant
  data := request.data.take capacity

/-- A message says what was asked to be sent and where it came from; its quadrant is that of the
route, once the constructors have returned or on the ring. -/
theorem Fleet.Sound.gets_of_route (h : F.Sound mac constructed)
    (hgets : F.Gets v p n held capacity message) {request : SendRequest} {route : Route V}
    (hroute : F.Conveys v n held.incoming.source request route) :
    message = { route.delivers mac request capacity with quadrant := message.quadrant } ∧
      (constructed ∨ (∃ found, route = .ring found) → message.quadrant = route.quadrant) := by
  obtain ⟨haccepted, -, rfl⟩ := h.gets hgets
  have htold := hroute.told h haccepted.1 rfl
  rw [htold.packet.messageOf capacity, htold.origin]
  refine ⟨rfl, ?_⟩
  rintro (hc | ⟨found, rfl⟩)
  · cases route with
    | ring found => exact htold.found found rfl
    | segment w reading => exact htold.reading w reading rfl hc
  · exact htold.found found rfl

/-! ### The quadrant of a message from the network -/

/-- The frame came over the network as frame `i` of the segment, and the gateway of the vehicle
accepted it under `reading`: the process is the gateway, or the gateway wrote the frame into the
ring. -/
def Fleet.CameAs (F : Fleet V m τ) (v : V) (n : Medium) (held : Held) (i : ℕ) (reading : UInt8) :
    Prop :=
  match n with
  | .raw => held.incoming.source = i ∧ held.reading = reading
  | .shm => ∃ entry, (F.ring v)[held.incoming.source]? = some entry ∧
      entry.cause = .forwarded i reading

/-- The quadrant of a message from the network. Assumes: in every process nothing but construction
happens before the constructor has returned. A message of frame `i` of the segment carries what the
gateway of the sender read when it put it there, which is, of two readings that are quadrants, what
the gateway of the receiver read when it accepted it; the bytes handed over are those of the
segment. -/
theorem network_quadrant [DecidableEq V] [DecidableEq τ]
    {buffers : V → Fin (m + 1) → Medium → Fin bufferSize → Buffer}
    (hrun : Reaches Fleet.step (Everywhere AfterConstruction) (Fleet.create mac buffers) F)
    (hgets : F.Gets v p n held capacity message) {i : ℕ} {reading : UInt8}
    (hcame : F.CameAs v n held i reading) :
    ∃ entry, F.segment[i]? = some entry ∧ message.quadrant = entry.reading ∧
      (entry.reading ≠ quadrantNone → reading ≠ quadrantNone → entry.reading = reading) ∧
        held.incoming.data = entry.bytes := by
  have h : F.Sound mac True := Fleet.sound_of_reaches (fun _ _ hguard _ ↦ hguard) hrun
  obtain ⟨haccepted, hpropagated, rfl⟩ := h.gets hgets
  have hmessage : ∀ entry, entry ∈ F.segment → held.incoming.data = entry.bytes →
      (messageOf held.incoming.data capacity).quadrant = entry.reading := by
    intro entry hentry hdata
    have hwhole := hpropagated.length
    rw [hdata] at hwhole
    rw [hdata]
    exact h.quadrant_segment trivial hentry hwhole
  cases n with
  | raw =>
    obtain ⟨rfl, rfl⟩ := hcame
    obtain ⟨hp, entry, hentry, hdata⟩ := haccepted.1
    have hquadrant := hmessage entry (List.mem_of_getElem? hentry) hdata
    refine ⟨entry, hentry, hquadrant, fun hsender hreceiver ↦ ?_, hdata⟩
    rw [← hquadrant] at hsender ⊢
    exact haccepted.2 rfl ⟨trivial, hp⟩ hpropagated.length hreceiver hsender
  | shm =>
    obtain ⟨entry, hentry, hcause⟩ := hcame
    obtain ⟨other, hother, hdata⟩ := haccepted.1
    obtain rfl : entry = other := Option.some.inj (hentry.symm.trans hother)
    obtain ⟨heard, hheard, hbytes, hwhole, hagrees⟩ := h.injected_bytes hentry hcause
    have hquadrant := hmessage heard (List.mem_of_getElem? hheard) (hdata.trans hbytes)
    refine ⟨heard, hheard, hquadrant, fun hsender hreceiver ↦ ?_, hdata.trans hbytes⟩
    have hcarried := h.quadrant_segment trivial (List.mem_of_getElem? hheard) hwhole.length
    rw [← hcarried] at hsender ⊢
    exact hagrees trivial hwhole.length hreceiver hsender

/-- The MAC addresses of two vehicles. -/
def pairMac (v : Bool) : Address := ⟨[2, 0, 0, 0, 0, if v then 1 else 0], rfl⟩

def pair : Fleet Bool 2 Unit := Fleet.create pairMac fun _ _ ↦ blankBuffers

def sender : Fin 3 := ⟨1, Nat.le_of_ble_eq_true rfl⟩

def listener : Fin 3 := ⟨2, Nat.le_of_ble_eq_true rfl⟩

def greeting : SendRequest where
  fromPort := 5
  dst := ⟨.broadcast, 0xFFFF⟩
  data := [7]
  ts := 1
  kind := .data
  now := 9

/-- The constructors of the processes of a vehicle, and a `Communicator` in one component. -/
def setUpActions (v : Bool) : List (FleetAction Bool 2 Unit) :=
  List.replicate 5 (FleetAction.act v gatewaySlot .construct) ++
    [FleetAction.act v sender .construct, FleetAction.act v listener .construct,
      FleetAction.act v listener (.attach 0xFFFF)]

/-- A component calls `Protocol::send`. -/
def sendActions (v : Bool) : List (FleetAction Bool 2 Unit) :=
  FleetAction.act v sender (.callSend () greeting) ::
    List.replicate 3 (FleetAction.act v sender (.send () 0))

/-- The gateway of `v` puts frame `seq` of its ring on the segment under a reading, and the gateway
of the other vehicle writes it, as frame `i` of the segment, into its own ring. -/
def crossActions (v : Bool) (seq i : ℕ) : List (FleetAction Bool 2 Unit) :=
  FleetAction.read v gatewaySlot seq ::
    List.replicate 5 (FleetAction.act v gatewaySlot (.receive .shm 3)) ++
      FleetAction.hear (!v) i ::
        List.replicate 5 (FleetAction.act (!v) gatewaySlot (.receive .raw 3))

/-- A component receives the frame `seq` of its ring. -/
def listenActions (v : Bool) (seq : ℕ) : List (FleetAction Bool 2 Unit) :=
  FleetAction.read v listener seq ::
    List.replicate 3 (FleetAction.act v listener (.receive .shm 0)) ++
      [FleetAction.act v listener (.receiveMessage .shm 0 4)]

def greetingActions : List (FleetAction Bool 2 Unit) :=
  setUpActions false ++ setUpActions true ++ sendActions false ++ crossActions false 0 0 ++
    listenActions false 0 ++ listenActions true 0

/-- A greeting of the other vehicle, received in quadrant 3. -/
theorem network_quadrant_greetingActions :
    ∃ F : Fleet Bool 2 Unit,
      run Fleet.step (Everywhere AfterConstruction) pair greetingActions = some F ∧
      ∃ held message, F.Gets true listener .shm held 4 message ∧ F.CameAs true .shm held 0 3 ∧
        ∃ entry, F.segment[0]? = some entry ∧ message.quadrant = entry.reading ∧
          (entry.reading ≠ quadrantNone → (3 : UInt8) ≠ quadrantNone → entry.reading = 3) ∧
            held.incoming.data = entry.bytes := by
  have hrun : (run Fleet.step (Everywhere AfterConstruction) pair greetingActions).map (fun F ↦
      ((F.shown true listener).filterMap messageShown, (F.ring true).map RingEntry.cause)) =
        some ([(.shm, 0, 4, ⟨[2, 0, 0, 0, 0, 0], 5, 1, 3, [7]⟩)], [.forwarded 0 3]) := by
    decide +kernel
  obtain ⟨F, hF, hends⟩ := Option.map_eq_some_iff.mp hrun
  obtain ⟨hshown, hcauses⟩ := Prod.mk.inj hends
  obtain ⟨held, hsource, hgets⟩ :=
    F.gets_of_shown (by rw [hshown]; exact List.mem_singleton_self _)
  obtain ⟨entry, hring, hcause⟩ := List.map_eq_singleton_iff.mp hcauses
  have hcame : F.CameAs true .shm held 0 3 :=
    ⟨entry, by rw [hsource, hring]; rfl, hcause⟩
  exact ⟨F, hF, held, _, hgets, hcame,
    network_quadrant (reaches_of_run greetingActions hF) hgets hcame⟩

/-! ### Messages do not depend on the buffers, the quadrant on the ring apart -/

/-- The packets came the same way: over the ring, or over the segment from the same gateway under
the same reading of its GPS. -/
def Route.Alike : Route V → Route V → Prop
  | .ring _, .ring _ => True
  | .segment w reading, .segment w' reading' => w = w' ∧ reading = reading'
  | _, _ => False

theorem Route.Alike.address {route route' : Route V} (h : route.Alike route') :
    route'.address mac = route.address mac := by
  cases route with
  | ring found =>
    cases route' with
    | ring found' => rfl
    | segment w reading => exact h.elim
  | segment w reading =>
    cases route' with
    | ring found' => exact h.elim
    | segment w' reading' => rw [Route.address, Route.address, h.1]

/-- What a message depends on. Assumes: two runs as in `network_quadrant`, in which the same packet
was sent, in whatever state the buffers were, and reached a receiver the same way. The messages are
the same exactly when the quadrants of the routes are, which is so of two packets that came over the
segment; a message that came over the ring has no quadrant exactly when the buffer it was sent in
had none. -/
theorem received_alike [DecidableEq V] [DecidableEq τ] {F' : Fleet V m τ}
    {buffers buffers' : V → Fin (m + 1) → Medium → Fin bufferSize → Buffer}
    (hrun : Reaches Fleet.step (Everywhere AfterConstruction) (Fleet.create mac buffers) F)
    (hrun' : Reaches Fleet.step (Everywhere AfterConstruction) (Fleet.create mac buffers') F')
    {v' : V} {p' : Fin (m + 1)} {n' : Medium} {held' : Held} {message' : Message}
    {request : SendRequest} {route route' : Route V}
    (hgets : F.Gets v p n held capacity message) (hgets' : F'.Gets v' p' n' held' capacity message')
    (hroute : F.Conveys v n held.incoming.source request route)
    (hroute' : F'.Conveys v' n' held'.incoming.source request route')
    (halike : route.Alike route') :
    (message = message' ↔ route.quadrant = route'.quadrant) ∧
      (∀ w reading, route = .segment w reading → message = message') ∧
        ∀ found, route = .ring found →
          (message.quadrant = quadrantNone ↔ found = quadrantNone) := by
  have h : F.Sound mac True := Fleet.sound_of_reaches (fun _ _ hguard _ ↦ hguard) hrun
  have h' : F'.Sound mac True := Fleet.sound_of_reaches (fun _ _ hguard _ ↦ hguard) hrun'
  obtain ⟨hmessage, hquadrant⟩ := h.gets_of_route hgets hroute
  obtain ⟨hmessage', hquadrant'⟩ := h'.gets_of_route hgets' hroute'
  have hquadrant := hquadrant (Or.inl trivial)
  have hquadrant' := hquadrant' (Or.inl trivial)
  have hiff : message = message' ↔ route.quadrant = route'.quadrant := by
    constructor
    · intro hsame
      rw [← hquadrant, ← hquadrant', hsame]
    · intro hsame
      rw [hmessage, hmessage', hquadrant, hquadrant', hsame, Route.delivers, Route.delivers,
        halike.address]
  refine ⟨hiff, ?_, ?_⟩
  · rintro w reading rfl
    refine hiff.mpr ?_
    cases route' with
    | ring found => exact halike.elim
    | segment w' reading' => exact halike.2
  · rintro found rfl
    rw [hquadrant]
    rfl

/-- A frame of the other vehicle is in the ring when a component sends. -/
def meetingActions : List (FleetAction Bool 2 Unit) :=
  setUpActions false ++ setUpActions true ++ sendActions true ++ crossActions true 0 0

/-- The component handles a frame of its ring for which it has no `Communicator`. -/
def passActions : List (FleetAction Bool 2 Unit) :=
  FleetAction.read false sender 0 ::
    List.replicate 4 (FleetAction.act false sender (.receive .shm 0))

/-- The frame of the other vehicle passes through the buffers of the component after it sends, or
before. -/
def freshActions : List (FleetAction Bool 2 Unit) :=
  meetingActions ++ sendActions false ++ passActions ++ listenActions false 1

def recycledActions : List (FleetAction Bool 2 Unit) :=
  meetingActions ++ passActions ++ sendActions false ++ listenActions false 1

/-- The calls of `Protocol::send` among the actions. -/
def callsOf : List (FleetAction Bool 2 Unit) → List (Bool × Fin 3 × SendRequest) :=
  List.filterMap fun
    | .act v p (.callSend _ request) => some (v, p, request)
    | _ => none

/-- The message that the listener is left with after some actions, when its frame is the second of
the ring. -/
def heardAfter (actions : List (FleetAction Bool 2 Unit)) :
    Option (List (Medium × ℕ × ℕ × Message) × List Cause) :=
  (run Fleet.step (Everywhere AfterConstruction) pair actions).map fun F ↦
    ((F.shown false listener).filterMap messageShown, (F.ring false).map RingEntry.cause)

theorem exists_of_heardAfter {actions : List (FleetAction Bool 2 Unit)} {found : UInt8}
    {heard : Message}
    (hheard : heardAfter actions =
      some ([(.shm, 1, 4, heard)], [.forwarded 0 3, .sent greeting found])) :
    ∃ F : Fleet Bool 2 Unit, Reaches Fleet.step (Everywhere AfterConstruction) pair F ∧
      ∃ held, F.Gets false listener .shm held 4 heard ∧
        F.Conveys false .shm held.incoming.source greeting (.ring found) := by
  obtain ⟨F, hF, hends⟩ := Option.map_eq_some_iff.mp hheard
  obtain ⟨hshown, hcauses⟩ := Prod.mk.inj hends
  obtain ⟨held, hsource, hgets⟩ :=
    F.gets_of_shown (by rw [hshown]; exact List.mem_singleton_self _)
  have hsecond : ((F.ring false)[1]?).map RingEntry.cause = some (.sent greeting found) := by
    rw [← List.getElem?_map, hcauses]
    rfl
  obtain ⟨entry, hentry, hcause⟩ := Option.map_eq_some_iff.mp hsecond
  refine ⟨F, reaches_of_run actions hF, held, hgets, ?_⟩
  rw [hsource]
  exact .sent hentry hcause

theorem heardAfter_freshActions : heardAfter freshActions =
    some ([(.shm, 1, 4, ⟨[0, 0, 0, 0, 0, 0], 5, 1, 0, [7]⟩)],
      [.forwarded 0 3, .sent greeting 0]) := by
  decide +kernel

theorem heardAfter_recycledActions : heardAfter recycledActions =
    some ([(.shm, 1, 4, ⟨[0, 0, 0, 0, 0, 0], 5, 1, 3, [7]⟩)],
      [.forwarded 0 3, .sent greeting 3]) := by
  decide +kernel

/-- The two runs, with the quadrants 0 and 3 in the buffer. -/
theorem received_alike_freshActions :
    ∃ F F' : Fleet Bool 2 Unit, ∃ held held' message message',
      F.Gets false listener .shm held 4 message ∧ F'.Gets false listener .shm held' 4 message' ∧
        (message = message' ↔ (0 : UInt8) = 3) ∧
          (message.quadrant = quadrantNone ↔ (0 : UInt8) = quadrantNone) := by
  obtain ⟨F, hF, held, hgets, hroute⟩ := exists_of_heardAfter heardAfter_freshActions
  obtain ⟨F', hF', held', hgets', hroute'⟩ := exists_of_heardAfter heardAfter_recycledActions
  obtain ⟨hiff, -, hnone⟩ := received_alike hF hF' hgets hgets' hroute hroute' trivial
  exact ⟨F, F', held, held', _, _, hgets, hgets', hiff, hnone 0 rfl⟩

/-- The same calls, and a message on the ring that says two things, neither that it has no quadrant.
-/
theorem received_differently :
    callsOf recycledActions = callsOf freshActions ∧
      ∃ F F' : Fleet Bool 2 Unit, Reaches Fleet.step (Everywhere AfterConstruction) pair F ∧
        Reaches Fleet.step (Everywhere AfterConstruction) pair F' ∧
          ∃ held held' message message', F.Gets false listener .shm held 4 message ∧
            F'.Gets false listener .shm held' 4 message' ∧
              F.Conveys false .shm held.incoming.source greeting (.ring 0) ∧
                F'.Conveys false .shm held'.incoming.source greeting (.ring 3) ∧
                  message ≠ message' ∧
                  message.quadrant ≠ quadrantNone ∧ message'.quadrant ≠ quadrantNone := by
  obtain ⟨F, hF, held, hgets, hroute⟩ := exists_of_heardAfter heardAfter_freshActions
  obtain ⟨F', hF', held', hgets', hroute'⟩ := exists_of_heardAfter heardAfter_recycledActions
  exact ⟨rfl, F, F', hF, hF', held, held', _, _, hgets, hgets', hroute, hroute',
    by decide, by decide,
    by decide⟩

end VehicleComm.Traffic
