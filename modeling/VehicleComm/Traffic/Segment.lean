import VehicleComm.Channel.Ledger
import VehicleComm.Channel.Construction
import VehicleComm.SharedMemory.Delivery

/-!
# Vehicles on one segment

Any number of vehicles and roadside units, each with a gateway (process `0`) and components, as in
the shared memory ring of the vehicle. A frame that a process sends through its NIC on the ring is
written into the ring of the vehicle by `engine_send`; one that a gateway sends through its raw
socket is put on the segment that all gateways share. A process is handed any frame of its ring that
`read_slot` copies out for it, in any order, and a gateway any frame of the segment, its own
included; nobody is handed a frame twice. The source of a frame handed over is its index in the ring
or on the segment.

The ring is that of the model of the shared memory engine at the level of whole frames: the position
in the list is the sequence number, and what is written and read out is what `write_slot` and
`read_slot` make of the frame there.
-/

set_option autoImplicit false
set_option relaxedAutoImplicit false

namespace VehicleComm.Traffic

open Library Network Channel SharedMemory

structure RingEntry (m : ℕ) where
  writer : Fin (m + 1)
  record : SlotRecord
  reading : UInt8
  cause : Cause

/-- A frame on the segment, put there by the gateway of a vehicle, which read `reading` in
`NIC::send`. -/
structure SegmentEntry (V : Type*) where
  vehicle : V
  bytes : List UInt8
  reading : UInt8
  cause : Cause

/-- Vehicles with `m` components each. `handed` and `shown` are the record of what each process was
handed and has shown. -/
structure Fleet (V : Type*) (m : ℕ) (τ : Type*) where
  process : V → Fin (m + 1) → Process τ
  handed : V → Fin (m + 1) → Medium → List Incoming
  shown : V → Fin (m + 1) → List Event
  ring : V → List (RingEntry m)
  segment : List (SegmentEntry V)

variable {V : Type*} {m : ℕ} {τ : Type*}

/-- All processes at the start of their constructors, with the MAC addresses of the raw interfaces.
The memory of the buffers is whatever it was. -/
def Fleet.create (mac : V → Address)
    (buffers : V → Fin (m + 1) → Medium → Fin bufferSize → Buffer) : Fleet V m τ where
  process v p := Process.create (p = gatewaySlot) (mac v) (buffers v p)
  handed _ _ _ := []
  shown _ _ := []
  ring _ := []
  segment := []

/-- The frame that an engine hands over. The buffers of both engines have the size of a frame. -/
def handOver (source : ℕ) (bytes : List UInt8) : Incoming where
  source := source
  data := bytes.take frameSize
  fits := List.length_take_le _ _

/-- What a process that shows an event writes into the ring. -/
def ringEntries (p : Fin (m + 1)) : Event → List (RingEntry m)
  | .transmitted .shm bytes reading cause =>
    match engineSend p bytes bytes.length (min_le_left _ _) with
    | none => []
    | some request => [⟨p, request.record, reading, cause⟩]
  | _ => []

/-- What a gateway that shows an event puts on the segment. -/
def segmentEntries (v : V) : Event → List (SegmentEntry V)
  | .transmitted .raw bytes reading cause => [⟨v, bytes, reading, cause⟩]
  | _ => []

section Steps

variable [DecidableEq V]

def Fleet.record (F : Fleet V m τ) (v : V) (p : Fin (m + 1)) (action : ProcessAction τ)
    (next : Process τ × Event) : Fleet V m τ where
  process := Function.update F.process v (Function.update (F.process v) p next.1)
  handed := Function.update F.handed v
    (Function.update (F.handed v) p (handedAfter (F.handed v p) action))
  shown := Function.update F.shown v (Function.update (F.shown v) p (F.shown v p ++ [next.2]))
  ring := Function.update F.ring v (F.ring v ++ ringEntries p next.2)
  segment := F.segment ++ segmentEntries v next.2

def Fleet.advance [DecidableEq τ] (F : Fleet V m τ) (v : V) (p : Fin (m + 1))
    (action : ProcessAction τ) : Option (Fleet V m τ) :=
  ((F.process v p).step action).map (F.record v p action)

end Steps

/-- A step of a process of its own, or a frame of the ring or of the segment that is handed to one.
-/
inductive FleetAction (V : Type*) (m : ℕ) (τ : Type*)
  | act (v : V) (p : Fin (m + 1)) (action : ProcessAction τ)
  | read (v : V) (p : Fin (m + 1)) (seq : ℕ)
  | hear (v : V) (i : ℕ)

def Fleet.translate (F : Fleet V m τ) :
    FleetAction V m τ → Option (V × Fin (m + 1) × ProcessAction τ)
  | .act v p action =>
    match action with
    | .arrive _ _ => none
    | action => some (v, p, action)
  | .read v p seq =>
    (F.ring v)[seq]?.bind fun entry ↦
      if shouldRead p entry.record ∧ seq ∉ (F.handed v p .shm).map Incoming.source then
        some (v, p, .arrive .shm (handOver seq entry.record.bytes))
      else none
  | .hear v i =>
    F.segment[i]?.bind fun entry ↦
      if i ∉ (F.handed v gatewaySlot .raw).map Incoming.source then
        some (v, gatewaySlot, .arrive .raw (handOver i entry.bytes))
      else none

/-- The step function of the fleet. -/
def Fleet.step [DecidableEq V] [DecidableEq τ] (F : Fleet V m τ) (action : FleetAction V m τ) :
    Option (Fleet V m τ) :=
  (F.translate action).bind fun site ↦ F.advance site.1 site.2.1 site.2.2

/-- The guard of a fleet each of whose processes meets a guard. -/
def Everywhere (guard : Process τ → ProcessAction τ → Prop) (F : Fleet V m τ)
    (action : FleetAction V m τ) : Prop :=
  ∀ v p processAction, F.translate action = some (v, p, processAction) →
    guard (F.process v p) processAction

instance (guard : Process τ → ProcessAction τ → Prop)
    [∀ P action, Decidable (guard P action)] (F : Fleet V m τ) (action : FleetAction V m τ) :
    Decidable (Everywhere guard F action) :=
  match htranslate : F.translate action with
  | none => isTrue fun v p processAction heq ↦ (by rw [htranslate] at heq; cases heq)
  | some (v, p, processAction) =>
    decidable_of_iff (guard (F.process v p) processAction) (by
      constructor
      · intro hguard w q other heq
        rw [htranslate] at heq
        cases heq
        exact hguard
      · intro hall
        exact hall v p processAction htranslate)

/-! ### The frames that are handed over -/

/-- The frame is one of the ring or, for a gateway, of the segment. -/
def Fleet.Arrived (F : Fleet V m τ) (v : V) (p : Fin (m + 1)) : Medium → Incoming → Prop
  | .shm, incoming =>
    ∃ entry, (F.ring v)[incoming.source]? = some entry ∧ incoming.data = entry.record.bytes
  | .raw, incoming => p = gatewaySlot ∧
    ∃ entry, F.segment[incoming.source]? = some entry ∧ incoming.data = entry.bytes

/-- The frame is handed to the process for the first time. -/
structure Fleet.Offers (F : Fleet V m τ) (v : V) (p : Fin (m + 1)) (n : Medium)
    (incoming : Incoming) : Prop where
  fresh : incoming.source ∉ (F.handed v p n).map Incoming.source
  ring : n = .shm → ∃ entry, (F.ring v)[incoming.source]? = some entry ∧
    shouldRead p entry.record = true ∧ incoming.data = entry.record.bytes.take frameSize
  segment : n = .raw → p = gatewaySlot ∧ ∃ entry, F.segment[incoming.source]? = some entry ∧
    incoming.data = entry.bytes.take frameSize

/-- A process is handed only what the ring or the segment has for it. -/
theorem Fleet.offers_of_translate {F : Fleet V m τ} {action : FleetAction V m τ} {v : V}
    {p : Fin (m + 1)} {n : Medium} {incoming : Incoming}
    (htranslate : F.translate action = some (v, p, .arrive n incoming)) :
    F.Offers v p n incoming := by
  cases action with
  | act w q action => cases action <;> cases htranslate
  | read w q seq =>
    obtain ⟨entry, hentry, hoffer⟩ := Option.bind_eq_some_iff.mp htranslate
    split_ifs at hoffer with hread
    cases hoffer
    exact ⟨hread.2, fun _ ↦ ⟨entry, hentry, hread.1, rfl⟩, fun heq ↦ (by cases heq)⟩
  | hear w i =>
    obtain ⟨entry, hentry, hoffer⟩ := Option.bind_eq_some_iff.mp htranslate
    split_ifs at hoffer with hnew
    cases hoffer
    exact ⟨hnew, fun heq ↦ (by cases heq), fun _ ↦ ⟨rfl, entry, hentry, rfl⟩⟩

section Record

variable [DecidableEq V] {F : Fleet V m τ} {v : V} {p : Fin (m + 1)} {action : ProcessAction τ}
  {next : Process τ × Event}

/-- What is true of the process that takes a step after it, and was true of the others, is true of
all processes. -/
theorem Fleet.record_forall
    {Q : V → Fin (m + 1) → Process τ → (Medium → List Incoming) → List Event → Prop}
    (hothers : ∀ w q, Q w q (F.process w q) (F.handed w q) (F.shown w q))
    (hself : Q v p next.1 (handedAfter (F.handed v p) action) (F.shown v p ++ [next.2]))
    (w : V) (q : Fin (m + 1)) :
    Q w q ((F.record v p action next).process w q) ((F.record v p action next).handed w q)
      ((F.record v p action next).shown w q) := by
  by_cases hw : w = v
  · subst hw
    by_cases hq : q = p
    · subst hq
      simpa only [record, Function.update_self] using hself
    · simpa only [record, Function.update_self, Function.update_of_ne hq] using hothers w q
  · simpa only [record, Function.update_of_ne hw] using hothers w q

theorem Fleet.mem_ring_record {w : V} {entry : RingEntry m}
    (hentry : entry ∈ (F.record v p action next).ring w) :
    entry ∈ F.ring w ∨ w = v ∧ entry ∈ ringEntries p next.2 := by
  by_cases hw : w = v
  · subst hw
    simp only [record, Function.update_self] at hentry
    exact (List.mem_append.mp hentry).imp_right fun hnew ↦ ⟨rfl, hnew⟩
  · simp only [record, Function.update_of_ne hw] at hentry
    exact Or.inl hentry

/-- A step leaves what is in the ring and on the segment. -/
theorem Fleet.ring_record (w : V) : F.ring w <+: (F.record v p action next).ring w := by
  by_cases hw : w = v
  · subst hw
    simp only [record, Function.update_self]
    exact List.prefix_append _ _
  · simp only [record, Function.update_of_ne hw]
    exact List.prefix_rfl

theorem Fleet.segment_record : F.segment <+: (F.record v p action next).segment :=
  List.prefix_append _ _

/-- The frame of an index stays what it is. -/
theorem getElem?_of_grown {α : Type*} {first later : List α} (hgrown : first <+: later) {i : ℕ}
    {x : α} (hx : first[i]? = some x) : later[i]? = some x := by
  obtain ⟨rest, rfl⟩ := hgrown
  obtain ⟨hi, -⟩ := List.getElem?_eq_some_iff.mp hx
  rw [List.getElem?_append_left hi, hx]

theorem Fleet.Arrived.record {w : V} {q : Fin (m + 1)} {n : Medium} {incoming : Incoming}
    (h : F.Arrived w q n incoming) : (F.record v p action next).Arrived w q n incoming := by
  cases n with
  | shm =>
    obtain ⟨entry, hentry, hdata⟩ := h
    exact ⟨entry, getElem?_of_grown (F.ring_record w) hentry, hdata⟩
  | raw =>
    obtain ⟨hgateway, entry, hentry, hdata⟩ := h
    exact ⟨hgateway, entry, getElem?_of_grown F.segment_record hentry, hdata⟩

end Record

end VehicleComm.Traffic
