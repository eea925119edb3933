import VehicleComm.Traffic.Segment

/-!
# Where a frame comes from

Every frame in a ring or on the segment is one that a process sent, with the packet it was asked
for, or the copy that a gateway made of a frame that was handed to it and that it accepted
(`Fleet.Sound`). So every frame that arrives anywhere goes back to one send (`Fleet.Conveys`), over
the ring of the vehicle alone or over the segment: a gateway never puts a frame of the network back
on it, as the source of such a frame is a MAC address and not the internal one. What the frame says
is told by the send and the way it came (`Fleet.Conveys.told`).

The invariant is over every order of sends, deliveries and reads, and is one of the fleet: each
process keeps the claims on its buffers (`Process.Sound`), and each entry of a ring or of the
segment names its cause, which is a call of `send` or the place of the frame that was copied. A
gateway is handed a frame of the segment at any time after it was put there, or never, and at most
once.
-/

set_option autoImplicit false
set_option relaxedAutoImplicit false

namespace VehicleComm.Traffic

open Library Network Channel SharedMemory

variable {V : Type*} {m : ℕ} {τ : Type*} {mac : V → Address} {constructed : Prop}
  {F F' : Fleet V m τ}

/-! ### The invariant -/

/-- A frame of a ring is one of `engine_send`, and what its writer showed when it sent it. -/
structure RingEntry.Sound (mac : Address) (arrived : Medium → Incoming → Prop) (constructed : Prop)
    (entry : RingEntry m) : Prop where
  engine : EngineRecord entry.writer entry.record
  shown : (Event.transmitted .shm entry.record.bytes entry.reading entry.cause).Sound mac arrived
    (constructed ∧ entry.writer = gatewaySlot) (decide (entry.writer = gatewaySlot))
  relayed : ∀ i reading, entry.cause = .forwarded i reading → entry.writer = gatewaySlot

/-- A frame of the segment is what its gateway showed when it sent it. -/
def SegmentEntry.Sound (mac : V → Address) (arrived : V → Medium → Incoming → Prop)
    (constructed : Prop) (entry : SegmentEntry V) : Prop :=
  (Event.transmitted .raw entry.bytes entry.reading entry.cause).Sound (mac entry.vehicle)
    (arrived entry.vehicle) constructed true

/-- Every process is sound relative to the frames of its ring and of the segment, and so is what it
showed. -/
structure Fleet.Sound (mac : V → Address) (constructed : Prop) (F : Fleet V m τ) : Prop where
  process : ∀ v p, (F.process v p).Sound (mac v) (F.Arrived v p) (constructed ∧ p = gatewaySlot)
  role : ∀ v p, (F.process v p).gateway = decide (p = gatewaySlot)
  offline : ∀ v p, p ≠ gatewaySlot → (F.process v p).Offline
  ledger : ∀ v p, (F.process v p).Ledger (F.handed v p) (F.shown v p)
  handed : ∀ v p n, ∀ incoming ∈ F.handed v p n, F.Arrived v p n incoming
  shown : ∀ v p, ∀ event ∈ F.shown v p,
    event.Sound (mac v) (F.Arrived v p) (constructed ∧ p = gatewaySlot) (decide (p = gatewaySlot))
  ring : ∀ v, ∀ entry ∈ F.ring v, entry.Sound (mac v) (F.Arrived v entry.writer) constructed
  segment : ∀ entry ∈ F.segment, entry.Sound mac (F.Arrived · gatewaySlot) constructed

theorem Fleet.sound_create (mac : V → Address)
    (buffers : V → Fin (m + 1) → Medium → Fin bufferSize → Buffer) (constructed : Prop) :
    (Fleet.create mac buffers : Fleet V m τ).Sound mac constructed where
  process _ _ := Process.sound_create _ _ _ _ _
  role _ _ := rfl
  offline _ _ _ := Process.offline_create _ _ _
  ledger _ _ := Process.ledger_create _ _ _
  handed _ _ _ _ h := absurd h List.not_mem_nil
  shown _ _ _ h := absurd h List.not_mem_nil
  ring _ _ h := absurd h List.not_mem_nil
  segment _ h := absurd h List.not_mem_nil

/-- A frame that is handed over is the one of the ring or of the segment, none of which is longer
than the buffer. -/
theorem Fleet.Sound.arrived_of_offers (h : F.Sound mac constructed) {v : V} {p : Fin (m + 1)}
    {n : Medium} {incoming : Incoming} (hoffers : F.Offers v p n incoming) :
    F.Arrived v p n incoming := by
  cases n with
  | shm =>
    obtain ⟨entry, hentry, -, hdata⟩ := hoffers.ring rfl
    have hshort := (h.ring v entry (List.mem_of_getElem? hentry)).engine.short
    exact ⟨entry, hentry, hdata.trans (List.take_of_length_le hshort)⟩
  | raw =>
    obtain ⟨hgateway, entry, hentry, hdata⟩ := hoffers.segment rfl
    have hsound := h.segment entry (List.mem_of_getElem? hentry)
    have hshort : entry.bytes.length ≤ frameSize := by
      unfold SegmentEntry.Sound at hsound
      cases hcause : entry.cause with
      | sent request found =>
        rw [hcause] at hsound
        exact hsound.1
      | forwarded source under =>
        rw [hcause] at hsound
        exact hsound.1
    exact ⟨hgateway, entry, hentry, hdata.trans (List.take_of_length_le hshort)⟩

/-- What the engine writes of a frame that is sent. -/
theorem mem_ringEntries {p : Fin (m + 1)} {event : Event} {entry : RingEntry m}
    (hentry : entry ∈ ringEntries p event) :
    ∃ bytes, event = .transmitted .shm bytes entry.reading entry.cause ∧ entry.writer = p ∧
      EngineRecord p entry.record ∧ entry.record.bytes = bytes.take shmFrameSize := by
  unfold ringEntries at hentry
  split at hentry
  case h_1 bytes reading cause =>
    split at hentry
    case h_1 => cases hentry
    case h_2 request hsend =>
      obtain rfl := List.mem_singleton.mp hentry
      have hrequest : request.frame = bytes ∧ request.size = bytes.length := by
        unfold engineSend at hsend
        split_ifs at hsend
        · cases hsend
          exact ⟨rfl, rfl⟩
        · cases hsend
          exact ⟨rfl, rfl⟩
      refine ⟨bytes, rfl, rfl, engineRecord_of_engineSend ?_, ?_⟩
      · simpa only [hrequest] using hsend
      · simp only [WriteRequest.record, hrequest, min_comm bytes.length]
        exact List.take_eq_take_min.symm
  case h_2 => cases hentry

theorem mem_segmentEntries {v : V} {event : Event} {entry : SegmentEntry V}
    (hentry : entry ∈ segmentEntries v event) :
    event = .transmitted .raw entry.bytes entry.reading entry.cause ∧ entry.vehicle = v := by
  unfold segmentEntries at hentry
  split at hentry
  · obtain rfl := List.mem_singleton.mp hentry
    exact ⟨rfl, rfl⟩
  · cases hentry

/-- The length of what is sent. -/
theorem length_of_transmitted {address : Address} {arrived : Medium → Incoming → Prop}
    {gateway : Bool} {n : Medium} {bytes : List UInt8} {reading : UInt8} {cause : Cause}
    (h : (Event.transmitted n bytes reading cause).Sound address arrived constructed gateway) :
    bytes.length ≤ frameSize := by
  cases cause with
  | sent request found => exact h.1
  | forwarded source under => exact h.1

/-- What is sent is a whole packet. -/
theorem whole_of_transmitted {address : Address} {arrived : Medium → Incoming → Prop}
    {gateway : Bool} {n : Medium} {bytes : List UInt8} {reading : UInt8} {cause : Cause}
    (h : (Event.transmitted n bytes reading cause).Sound address arrived constructed gateway) :
    headerSize + packetHeaderSize ≤ bytes.length := by
  cases cause with
  | sent request found => exact h.2.1.packet.whole
  | forwarded source under =>
    obtain ⟨-, incoming, -, -, hpropagated, -, hstamped⟩ := h
    have hcopy : (copyBytes address n.other incoming.data).length = incoming.data.length := by
      have hlength := hpropagated.length
      cases n with
      | shm => rfl
      | raw =>
        rw [Medium.other, copyBytes, List.length_append, length_etherHeader, List.length_drop]
        omega
    have hwhole := hpropagated.length
    rw [← hcopy] at hwhole
    cases n with
    | shm =>
      have hwire : bytes = copyBytes address Medium.shm.other incoming.data := hstamped
      rwa [hwire]
    | raw =>
      rcases hstamped with hwire | ⟨-, hwire⟩
      · rwa [hwire, stampQuadrant, length_overwrite]
      · rwa [hwire]

section Step

variable [DecidableEq V] [DecidableEq τ]

/-- A step of one process of the fleet. Assumes: a frame that is handed over is offered, and the
claims on quadrants are made only of processes whose constructor has returned. -/
theorem Fleet.Sound.record (h : F.Sound mac constructed) {v : V} {p : Fin (m + 1)}
    {action : ProcessAction τ} {next : Process τ × Event}
    (hoffers : ∀ n incoming, action = .arrive n incoming → F.Offers v p n incoming)
    (hconstructed : constructed → AfterConstruction (F.process v p) action)
    (hstep : (F.process v p).step action = some next) :
    (F.record v p action next).Sound mac constructed := by
  have harrived : ∀ n incoming, action = .arrive n incoming → F.Arrived v p n incoming :=
    fun n incoming haction ↦ h.arrived_of_offers (hoffers n incoming haction)
  have hready : constructed ∧ p = gatewaySlot → action ≠ .construct →
      (F.process v p).gateway = true ∧ (F.process v p).stage = .returned := by
    rintro ⟨hc, hp⟩ haction
    refine ⟨by rw [h.role, hp]; rfl, ?_⟩
    have hguard := hconstructed hc
    cases action <;> first | exact hguard | exact absurd rfl haction
  have hmore : ∀ w q n incoming, F.Arrived w q n incoming →
      (F.record v p action next).Arrived w q n incoming := fun _ _ _ _ harrived ↦ harrived.record
  have hevent := (h.process v p).event hready hstep
  rw [h.role] at hevent
  have hcomponent : ∀ n bytes reading cause, p ≠ gatewaySlot →
      next.2 = .transmitted n bytes reading cause →
        n = .shm ∧ ∃ request found, cause = .sent request found := by
    intro n bytes reading cause hp hshown
    have hsent : (F.process v p).step action =
        some (next.1, .transmitted n bytes reading cause) := by
      rw [hstep, ← hshown]
    exact (h.offline v p hp).transmitted hsent
  constructor
  · refine F.record_forall (Q := fun w q P _ _ ↦
      P.Sound (mac w) ((F.record v p action next).Arrived w q) (constructed ∧ q = gatewaySlot))
      (fun w q ↦ (h.process w q).mono (hmore w q)) ?_
    exact ((h.process v p).step harrived hready hstep).mono (hmore v p)
  · refine F.record_forall (Q := fun _ q P _ _ ↦ P.gateway = decide (q = gatewaySlot)) h.role ?_
    rw [(Process.role_step hstep).1, h.role]
  · refine F.record_forall (Q := fun _ q P _ _ ↦ q ≠ gatewaySlot → P.Offline) h.offline fun hp ↦ ?_
    exact (h.offline v p hp).step (by rw [h.role]; exact decide_eq_false hp) hstep
  · refine F.record_forall (Q := fun _ _ P handed events ↦ P.Ledger handed events) h.ledger ?_
    exact (h.ledger v p).step (h.process v p)
      (fun n incoming haction ↦ (hoffers n incoming haction).fresh) hstep
  · refine F.record_forall (Q := fun w q _ handed _ ↦ ∀ n, ∀ incoming ∈ handed n,
      (F.record v p action next).Arrived w q n incoming)
      (fun w q n incoming hin ↦ hmore w q n incoming (h.handed w q n incoming hin))
      fun n incoming hin ↦ ?_
    rcases mem_handedAfter hin with hold | haction
    · exact hmore v p n incoming (h.handed v p n incoming hold)
    · exact hmore v p n incoming (harrived n incoming haction)
  · refine F.record_forall (Q := fun w q _ _ events ↦ ∀ event ∈ events,
      event.Sound (mac w) ((F.record v p action next).Arrived w q) (constructed ∧ q = gatewaySlot)
        (decide (q = gatewaySlot)))
      (fun w q event hin ↦ (h.shown w q event hin).mono (hmore w q)) fun event hin ↦ ?_
    rcases List.mem_append.mp hin with hold | hnew
    · exact (h.shown v p event hold).mono (hmore v p)
    · rw [List.mem_singleton.mp hnew]
      exact hevent.mono (hmore v p)
  · intro w entry hentry
    rcases Fleet.mem_ring_record hentry with hold | ⟨rfl, hnew⟩
    · have hsound := h.ring w entry hold
      exact ⟨hsound.engine, hsound.shown.mono (hmore w _), hsound.relayed⟩
    · obtain ⟨bytes, hshown, rfl, hengine, hbytes⟩ := mem_ringEntries hnew
      rw [hshown] at hevent
      have hwhole : entry.record.bytes = bytes :=
        hbytes.trans (List.take_of_length_le (length_of_transmitted hevent))
      refine ⟨hengine, ?_, fun i reading hcause ↦ ?_⟩
      · rw [hwhole]
        exact hevent.mono (hmore w _)
      · by_contra hp
        obtain ⟨-, request, found, hsent⟩ := hcomponent _ _ _ _ hp hshown
        cases hcause.symm.trans hsent
  · intro entry hentry
    rcases List.mem_append.mp hentry with hold | hnew
    · exact (h.segment entry hold).mono (hmore entry.vehicle _)
    · obtain ⟨hshown, rfl⟩ := mem_segmentEntries hnew
      have hp : p = gatewaySlot := by
        by_contra hp
        cases (hcomponent _ _ _ _ hp hshown).1
      rw [hshown] at hevent
      simp only [hp, and_true, decide_true] at hevent
      exact hevent.mono (hmore entry.vehicle _)

/-- A step of the fleet is a step of one process. -/
theorem Fleet.step_cases {action : FleetAction V m τ} (hstep : F.step action = some F') :
    ∃ v p processAction next, F.translate action = some (v, p, processAction) ∧
      (F.process v p).step processAction = some next ∧ F' = F.record v p processAction next := by
  obtain ⟨⟨v, p, processAction⟩, htranslate, hadvance⟩ := Option.bind_eq_some_iff.mp hstep
  obtain ⟨next, hnext, rfl⟩ := Option.map_eq_some_iff.mp hadvance
  exact ⟨v, p, processAction, next, htranslate, hnext, rfl⟩

theorem Fleet.Sound.step (h : F.Sound mac constructed) {action : FleetAction V m τ}
    (hguard : constructed → Everywhere AfterConstruction F action)
    (hstep : F.step action = some F') : F'.Sound mac constructed := by
  obtain ⟨v, p, processAction, next, htranslate, hnext, rfl⟩ := Fleet.step_cases hstep
  refine h.record (fun n incoming haction ↦ ?_)
    (fun hc ↦ hguard hc v p processAction htranslate) hnext
  subst haction
  exact Fleet.offers_of_translate htranslate

/-- In every run all processes and frames are sound, whatever the buffers held at first. -/
theorem Fleet.sound_of_reaches {guard : Fleet V m τ → FleetAction V m τ → Prop}
    {buffers : V → Fin (m + 1) → Medium → Fin bufferSize → Buffer}
    (hguard : ∀ G action, guard G action → constructed → Everywhere AfterConstruction G action)
    (hrun : Reaches Fleet.step guard (Fleet.create mac buffers) F) : F.Sound mac constructed :=
  hrun.invariant (fun G action _ h hg hstep ↦ h.step (hguard G action hg) hstep)
    (Fleet.sound_create mac buffers constructed)

/-- What every process keeps of what it was handed and has shown holds of all processes of a fleet.
-/
theorem Fleet.forall_of_reaches {guard : Process τ → ProcessAction τ → Prop}
    {Q : Process τ → (Medium → List Incoming) → List Event → Prop}
    {buffers : V → Fin (m + 1) → Medium → Fin bufferSize → Buffer}
    (hcreate : ∀ gateway address memory,
      Q (Process.create gateway address memory) (fun _ ↦ []) [])
    (hkeep : ∀ (P P' : Process τ) handed events action event address arrived, guard P action →
      P.Sound address arrived False → P.Ledger handed events → P.step action = some (P', event) →
        Q P handed events → Q P' (handedAfter handed action) (events ++ [event]))
    (hrun : Reaches Fleet.step (Everywhere guard) (Fleet.create mac buffers) F) (v : V)
    (p : Fin (m + 1)) : Q (F.process v p) (F.handed v p) (F.shown v p) := by
  have hkeeps : ∀ (G : Fleet V m τ) action G',
      (G.Sound mac False ∧ ∀ v p, Q (G.process v p) (G.handed v p) (G.shown v p)) →
        Everywhere guard G action → G.step action = some G' →
          G'.Sound mac False ∧ ∀ v p, Q (G'.process v p) (G'.handed v p) (G'.shown v p) := by
    intro G action G' hG hguard hstep
    obtain ⟨w, q, processAction, next, htranslate, hnext, rfl⟩ := Fleet.step_cases hstep
    refine ⟨hG.1.step (fun hfalse ↦ hfalse.elim) hstep, ?_⟩
    refine G.record_forall (Q := fun _ _ P handed events ↦ Q P handed events) hG.2 ?_
    have hsound := hG.1.process w q
    rw [false_and] at hsound
    exact hkeep _ _ _ _ _ _ _ _ (hguard w q processAction htranslate) hsound (hG.1.ledger w q) hnext
      (hG.2 w q)
  exact (hrun.invariant hkeeps
    ⟨Fleet.sound_create mac buffers False, fun _ _ ↦ hcreate _ _ _⟩).2 v p

end Step

/-! ### What was shown is what was sent -/

/-- Why a frame was sent through NIC `n`. -/
def causeOn (n : Medium) : Event → Option Cause
  | .transmitted k _ _ cause => if k = n then some cause else none
  | _ => none

/-- Why the frames were sent that a process sent through NIC `n`. -/
def causesOf (n : Medium) (events : List Event) : List Cause := events.filterMap (causeOn n)

def forwardedSource : Cause → Option ℕ
  | .forwarded source _ => some source
  | .sent _ _ => none

theorem filterMap_causesOf (n : Medium) (events : List Event) :
    (causesOf n.other events).filterMap forwardedSource = forwardsOf n events := by
  rw [causesOf, List.filterMap_filterMap, forwardsOf]
  congr 1
  funext event
  cases event with
  | transmitted k bytes reading cause =>
    cases cause with
    | sent request found =>
      by_cases hk : k = n.other
      · simp [causeOn, Event.forwards, hk, forwardedSource]
      · simp [causeOn, Event.forwards, hk]
    | forwarded source under =>
      by_cases hk : k = n.other
      · simp [causeOn, Event.forwards, hk, forwardedSource]
      · simp [causeOn, Event.forwards, hk]
  | _ => rfl

/-- The frames of a process in the ring, and of a gateway on the segment, are those it showed, in
their order. -/
structure Fleet.Traced [DecidableEq V] (F : Fleet V m τ) : Prop where
  ring : ∀ v p, ((F.ring v).filter fun entry ↦ entry.writer = p).map RingEntry.cause =
    causesOf .shm (F.shown v p)
  segment : ∀ v, (F.segment.filter fun entry ↦ entry.vehicle = v).map SegmentEntry.cause =
    causesOf .raw (F.shown v gatewaySlot)
  component : ∀ v p, p ≠ gatewaySlot → causesOf .raw (F.shown v p) = []

/-- What a process that shows an event writes into the ring, the reasons. -/
theorem map_cause_ringEntries {p : Fin (m + 1)} {event : Event}
    (hnonempty : ∀ bytes reading cause,
      event = .transmitted .shm bytes reading cause → bytes ≠ []) :
    (ringEntries p event).map RingEntry.cause = causesOf .shm [event] := by
  unfold ringEntries
  split
  case h_1 bytes reading cause =>
    have hsize : bytes.length ≠ 0 := fun hzero ↦
      hnonempty bytes reading cause rfl (List.length_eq_zero_iff.mp hzero)
    have hcauses : causesOf .shm [Event.transmitted .shm bytes reading cause] = [cause] := rfl
    unfold engineSend
    rw [if_neg hsize, hcauses]
    split_ifs
    · rfl
    · rfl
  case h_2 hother =>
    cases event with
    | transmitted k bytes reading cause =>
      cases k with
      | shm => exact absurd rfl (hother bytes reading cause)
      | raw => rfl
    | _ => rfl

theorem map_cause_segmentEntries (v : V) (event : Event) :
    (segmentEntries v event).map SegmentEntry.cause = causesOf .raw [event] := by
  cases event with
  | transmitted k bytes reading cause =>
    cases k with
    | shm => rfl
    | raw => rfl
  | _ => rfl

theorem causesOf_concat (n : Medium) (events : List Event) (event : Event) :
    causesOf n (events ++ [event]) = causesOf n events ++ causesOf n [event] :=
  List.filterMap_append

theorem causesOf_raw_of_component {p : Fin (m + 1)} {event : Event}
    (hgateway : ∀ bytes reading cause, event = .transmitted .raw bytes reading cause →
      p = gatewaySlot) (hp : p ≠ gatewaySlot) : causesOf .raw [event] = [] := by
  cases event with
  | transmitted k bytes reading cause =>
    cases k with
    | shm => rfl
    | raw => exact absurd (hgateway bytes reading cause rfl) hp
  | _ => rfl

section Traced

variable [DecidableEq V]

/-- The frames of a ring by their writers after a step. -/
theorem Fleet.Traced.ring_record (h : F.Traced) {v : V} {p : Fin (m + 1)} {action : ProcessAction τ}
    {next : Process τ × Event}
    (hnonempty : ∀ bytes reading cause, next.2 = .transmitted .shm bytes reading cause → bytes ≠ [])
    (w : V) (q : Fin (m + 1)) :
    (((F.record v p action next).ring w).filter fun entry ↦ entry.writer = q).map RingEntry.cause =
      causesOf .shm ((F.record v p action next).shown w q) := by
  by_cases hw : w = v
  · subst hw
    simp only [Fleet.record, Function.update_self, List.filter_append, List.map_append, h.ring w q]
    by_cases hq : q = p
    · subst hq
      have hall : (ringEntries q next.2).filter (fun entry ↦ decide (entry.writer = q)) =
          ringEntries q next.2 :=
        List.filter_eq_self.mpr fun entry hentry ↦ by
          obtain ⟨bytes, -, hwriter, -⟩ := mem_ringEntries hentry
          exact decide_eq_true hwriter
      rw [hall, map_cause_ringEntries hnonempty, Function.update_self, causesOf_concat]
    · have hnone : (ringEntries p next.2).filter (fun entry ↦ decide (entry.writer = q)) = [] :=
        List.filter_eq_nil_iff.mpr fun entry hentry ↦ by
          obtain ⟨bytes, -, hwriter, -⟩ := mem_ringEntries hentry
          rw [hwriter, decide_eq_true_eq]
          exact fun heq ↦ hq heq.symm
      rw [hnone, Function.update_of_ne hq, List.map_nil, List.append_nil]
  · simp only [Fleet.record, Function.update_of_ne hw, h.ring w q]

/-- The frames on the segment by their vehicles after a step. -/
theorem Fleet.Traced.segment_record (h : F.Traced) {v : V} {p : Fin (m + 1)}
    {action : ProcessAction τ} {next : Process τ × Event}
    (hgateway : ∀ bytes reading cause, next.2 = .transmitted .raw bytes reading cause →
      p = gatewaySlot) (w : V) :
    (((F.record v p action next).segment).filter fun entry ↦ entry.vehicle = w).map
        SegmentEntry.cause = causesOf .raw ((F.record v p action next).shown w gatewaySlot) := by
  simp only [Fleet.record, List.filter_append, List.map_append, h.segment w]
  by_cases hw : w = v
  · subst hw
    have hall : (segmentEntries w next.2).filter (fun entry ↦ decide (entry.vehicle = w)) =
        segmentEntries w next.2 :=
      List.filter_eq_self.mpr fun entry hentry ↦ decide_eq_true (mem_segmentEntries hentry).2
    rw [hall, map_cause_segmentEntries, Function.update_self]
    by_cases hp : p = gatewaySlot
    · subst hp
      rw [Function.update_self, causesOf_concat]
    · rw [Function.update_of_ne fun heq ↦ hp heq.symm, causesOf_raw_of_component hgateway hp,
        List.append_nil]
  · have hnone : (segmentEntries v next.2).filter (fun entry ↦ decide (entry.vehicle = w)) = [] :=
      List.filter_eq_nil_iff.mpr fun entry hentry ↦ by
        rw [(mem_segmentEntries hentry).2, decide_eq_true_eq]
        exact fun heq ↦ hw heq.symm
    rw [hnone, Function.update_of_ne hw, List.map_nil, List.append_nil]

/-- In every run the frames of a process are those it showed. -/
theorem Fleet.traced_of_reaches [DecidableEq τ] {guard : Fleet V m τ → FleetAction V m τ → Prop}
    {buffers : V → Fin (m + 1) → Medium → Fin bufferSize → Buffer}
    (hrun : Reaches Fleet.step guard (Fleet.create mac buffers) F) : F.Traced := by
  have hkeeps : ∀ (G : Fleet V m τ) action G', (G.Sound mac False ∧ G.Traced) →
      guard G action → G.step action = some G' → G'.Sound mac False ∧ G'.Traced := by
    rintro G action G' ⟨hsound, htraced⟩ - hstep
    have hlater := hsound.step (fun hfalse ↦ hfalse.elim) hstep
    obtain ⟨v, p, processAction, next, -, hnext, rfl⟩ := Fleet.step_cases hstep
    have hgateway : ∀ bytes reading cause, next.2 = .transmitted .raw bytes reading cause →
        p = gatewaySlot := by
      intro bytes reading cause hshown
      by_contra hp
      have hsent : (G.process v p).step processAction =
          some (next.1, .transmitted .raw bytes reading cause) := by rw [hnext, ← hshown]
      cases ((hsound.offline v p hp).transmitted hsent).1
    refine ⟨hlater, htraced.ring_record fun bytes reading cause hshown hnil ↦ ?_,
      htraced.segment_record hgateway, ?_⟩
    · have hevent := (hsound.process v p).event (fun hready ↦ hready.1.elim) hnext
      rw [hshown, hnil] at hevent
      exact absurd (whole_of_transmitted hevent) (by decide)
    · refine G.record_forall (Q := fun _ q _ _ events ↦ q ≠ gatewaySlot → causesOf .raw events = [])
        htraced.component fun hp ↦ ?_
      rw [causesOf_concat, htraced.component v p hp, List.nil_append]
      exact causesOf_raw_of_component hgateway hp
  exact (hrun.invariant hkeeps
    ⟨Fleet.sound_create mac buffers False, fun _ _ ↦ rfl, fun _ ↦ rfl, fun _ _ _ ↦ rfl⟩).2

end Traced

/-! ### Routes -/

/-- How a packet came: over the ring of its vehicle, with what the buffer had as the quadrant, or
over the segment, put there by a gateway under a reading of its GPS. -/
inductive Route (V : Type*)
  | ring (found : UInt8)
  | segment (vehicle : V) (reading : UInt8)

/-- The source of the Ethernet header of a packet that came a route. -/
def Route.address (mac : V → Address) : Route V → Address
  | .ring _ => .internal
  | .segment w _ => mac w

/-- The frame of an index in the ring of a vehicle, or on the segment, goes back to a send. -/
inductive Fleet.Conveys (F : Fleet V m τ) (v : V) : Medium → ℕ → SendRequest → Route V → Prop
  | sent {seq : ℕ} {entry : RingEntry m} {request : SendRequest} {found : UInt8} :
    (F.ring v)[seq]? = some entry → entry.cause = .sent request found →
      F.Conveys v .shm seq request (.ring found)
  | aired {i : ℕ} {entry : SegmentEntry V} {request : SendRequest} {found : UInt8} :
    F.segment[i]? = some entry → entry.cause = .sent request found →
      F.Conveys v .raw i request (.segment entry.vehicle entry.reading)
  | relayed {i seq : ℕ} {entry : SegmentEntry V} {origin : RingEntry m} {request : SendRequest}
    {found under : UInt8} : F.segment[i]? = some entry → entry.cause = .forwarded seq under →
      (F.ring entry.vehicle)[seq]? = some origin → origin.cause = .sent request found →
        F.Conveys v .raw i request (.segment entry.vehicle entry.reading)
  | injected {seq i : ℕ} {entry : RingEntry m} {under : UInt8} {request : SendRequest}
    {route : Route V} : (F.ring v)[seq]? = some entry → entry.cause = .forwarded i under →
      F.Conveys v .raw i request route → F.Conveys v .shm seq request route

/-- What a packet that came a route says. -/
structure Told (mac : V → Address) (constructed : Prop) (request : SendRequest) (route : Route V)
    (data : List UInt8) : Prop where
  packet : Carries request data
  origin : etherSrc data = (route.address mac).octets
  found : ∀ found, route = .ring found → packetQuadrant data = found
  reading : ∀ w reading, route = .segment w reading → constructed → packetQuadrant data = reading

/-- A frame that a gateway puts on the segment has a header of the gateway. -/
theorem Fleet.Sound.header_segment (h : F.Sound mac constructed) {entry : SegmentEntry V}
    (hentry : entry ∈ F.segment) :
    ∃ dst, entry.bytes.take headerSize = etherHeader dst (mac entry.vehicle) proto := by
  have hsound := h.segment entry hentry
  unfold SegmentEntry.Sound at hsound
  cases hcause : entry.cause with
  | sent request found =>
    rw [hcause] at hsound
    exact ⟨_, hsound.2.1.header⟩
  | forwarded seq under =>
    rw [hcause] at hsound
    obtain ⟨-, incoming, -, -, -, -, hstamped⟩ := hsound
    have hcopy : (copyBytes (mac entry.vehicle) .shm incoming.data).take headerSize =
        etherHeader .broadcast (mac entry.vehicle) proto :=
      List.take_left' (length_etherHeader _ _ _)
    refine ⟨.broadcast, ?_⟩
    rcases hstamped with hwire | ⟨-, hwire⟩
    · rw [hwire, take_headerSize_stampQuadrant]
      exact hcopy
    · rw [hwire]
      exact hcopy

theorem Fleet.Sound.etherSrc_segment (h : F.Sound mac constructed) {entry : SegmentEntry V}
    (hentry : entry ∈ F.segment) : etherSrc entry.bytes = (mac entry.vehicle).octets := by
  obtain ⟨dst, hheader⟩ := h.header_segment hentry
  exact (fields_of_etherHeader hheader).2.1

/-- A frame of the network that a gateway writes into its ring is that of the segment. -/
theorem Fleet.Sound.injected_bytes (h : F.Sound mac constructed) {v : V} {seq i : ℕ}
    {entry : RingEntry m} {under : UInt8} (hentry : (F.ring v)[seq]? = some entry)
    (hcause : entry.cause = .forwarded i under) :
    ∃ heard, F.segment[i]? = some heard ∧ entry.record.bytes = heard.bytes ∧
      Propagated .raw heard.bytes ∧ (constructed → QuadrantAgrees heard.bytes under) := by
  have hsound := h.ring v entry (List.mem_of_getElem? hentry)
  have hshown := hsound.shown
  rw [hcause] at hshown
  obtain ⟨-, incoming, rfl, haccepted, hpropagated, -, hstamped⟩ := hshown
  obtain ⟨-, heard, hheard, hdata⟩ := haccepted.1
  have hbytes : entry.record.bytes = incoming.data := hstamped
  refine ⟨heard, hheard, hbytes.trans hdata, by rw [← hdata]; exact hpropagated, fun hc ↦ ?_⟩
  rw [← hdata]
  exact haccepted.2 rfl ⟨hc, hsound.relayed _ _ hcause⟩

/-- A whole packet on the segment carries the reading under which it was put there. -/
theorem Fleet.Sound.quadrant_segment (h : F.Sound mac constructed) (hc : constructed)
    {entry : SegmentEntry V} (hentry : entry ∈ F.segment)
    (hwhole : headerSize + packetHeaderSize ≤ entry.bytes.length) :
    packetQuadrant entry.bytes = entry.reading := by
  have hsound := h.segment entry hentry
  unfold SegmentEntry.Sound at hsound
  cases hcause : entry.cause with
  | sent request found =>
    rw [hcause] at hsound
    exact hsound.2.2 hc
  | forwarded seq under =>
    rw [hcause] at hsound
    obtain ⟨-, incoming, -, -, -, -, hstamped⟩ := hsound
    rcases hstamped with hwire | ⟨hnot, -⟩
    · rw [hwire] at hwhole ⊢
      refine packetQuadrant_stampQuadrant _ ?_
      rwa [stampQuadrant, length_overwrite] at hwhole
    · exact absurd hc hnot

/-- A frame of its ring that a gateway puts on the segment has the internal address as its source:
it is one that a process of the vehicle sent. Assumes: the raw interfaces have addresses of their
own. -/
theorem Fleet.Sound.relayed_origin (h : F.Sound mac constructed)
    (hmac : ∀ w, mac w ≠ .internal) {entry : SegmentEntry V} (hentry : entry ∈ F.segment) {seq : ℕ}
    {under : UInt8} (hcause : entry.cause = .forwarded seq under) :
    ∃ origin request found, (F.ring entry.vehicle)[seq]? = some origin ∧
      origin.cause = .sent request found ∧ forwardsToNetwork origin.record.bytes = true ∧
        Propagated .shm origin.record.bytes ∧
          Stamped constructed .raw (copyBytes (mac entry.vehicle) .shm origin.record.bytes)
            entry.reading entry.bytes := by
  have hsound := h.segment entry hentry
  unfold SegmentEntry.Sound at hsound
  rw [hcause] at hsound
  obtain ⟨-, incoming, rfl, haccepted, hpropagated, hforwards, hstamped⟩ := hsound
  obtain ⟨origin, horigin, hdata⟩ := haccepted.1
  have hforwards := hforwards rfl
  rw [hdata] at hforwards hstamped hpropagated
  cases horiginCause : origin.cause with
  | sent request found =>
    exact ⟨origin, request, found, horigin, horiginCause, hforwards, hpropagated, hstamped⟩
  | forwarded i other =>
    -- the source of a frame of the network is the address of a gateway
    exfalso
    obtain ⟨heard, hheard, hbytes, -⟩ := h.injected_bytes horigin horiginCause
    have hsource := h.etherSrc_segment (List.mem_of_getElem? hheard)
    simp only [forwardsToNetwork, Bool.and_eq_true, decide_eq_true_eq] at hforwards
    rw [← hbytes, hforwards.1] at hsource
    exact hmac heard.vehicle (Address.eq_of_octets hsource.symm)

/-- A frame says what was sent. -/
theorem Fleet.Conveys.told (h : F.Sound mac constructed) {v : V} {n : Medium} {source : ℕ}
    {request : SendRequest} {route : Route V} (hconveys : F.Conveys v n source request route)
    {p : Fin (m + 1)} {incoming : Incoming} (harrived : F.Arrived v p n incoming)
    (hsource : incoming.source = source) :
    Told mac constructed request route incoming.data := by
  induction hconveys generalizing incoming p with
  | @sent seq entry request found hentry hcause =>
    subst hsource
    obtain ⟨other, hother, hdata⟩ := harrived
    obtain rfl : entry = other := Option.some.inj (hentry.symm.trans hother)
    have hshown := (h.ring v entry (List.mem_of_getElem? hentry)).shown
    rw [hcause] at hshown
    obtain ⟨-, houtgoing, hquadrant⟩ := hshown
    rw [hdata]
    refine ⟨houtgoing.packet, (fields_of_etherHeader houtgoing.header).2.1, ?_, ?_⟩
    · rintro _ ⟨⟩
      exact hquadrant
    · exact fun _ _ heq ↦ by cases heq
  | @aired i entry request found hentry hcause =>
    subst hsource
    obtain ⟨-, other, hother, hdata⟩ := harrived
    obtain rfl : entry = other := Option.some.inj (hentry.symm.trans hother)
    have hshown := h.segment entry (List.mem_of_getElem? hentry)
    unfold SegmentEntry.Sound at hshown
    rw [hcause] at hshown
    obtain ⟨-, houtgoing, hquadrant⟩ := hshown
    rw [hdata]
    refine ⟨houtgoing.packet, (fields_of_etherHeader houtgoing.header).2.1, ?_, ?_⟩
    · exact fun _ heq ↦ by cases heq
    · rintro _ _ ⟨⟩
      exact hquadrant
  | @relayed i seq entry origin request found under hentry hcause horigin hsent =>
    subst hsource
    obtain ⟨-, other, hother, hdata⟩ := harrived
    obtain rfl : entry = other := Option.some.inj (hentry.symm.trans hother)
    have hin := List.mem_of_getElem? hentry
    have hshown := h.segment entry hin
    unfold SegmentEntry.Sound at hshown
    rw [hcause] at hshown
    obtain ⟨-, read, rfl, haccepted, -, -, hstamped⟩ := hshown
    obtain ⟨written, hwritten, hread⟩ := haccepted.1
    obtain rfl : origin = written := Option.some.inj (horigin.symm.trans hwritten)
    have hsound := (h.ring entry.vehicle origin (List.mem_of_getElem? horigin)).shown
    rw [hsent] at hsound
    have hcopy := hsound.2.1.packet.copyBytes (mac entry.vehicle) .shm
    rw [← hread] at hcopy
    rw [hdata]
    refine ⟨?_, h.etherSrc_segment hin, fun _ heq ↦ (by cases heq), ?_⟩
    · rcases hstamped with hwire | ⟨-, hwire⟩
      · rw [hwire]
        exact hcopy.stampQuadrant _
      · rw [hwire]
        exact hcopy
    · rintro _ _ ⟨⟩ hc
      rcases hstamped with hwire | ⟨hnot, -⟩
      · rw [hwire]
        exact packetQuadrant_stampQuadrant _ hcopy.whole
      · exact absurd hc hnot
  | @injected seq i entry under request route hentry hcause hair ih =>
    subst hsource
    obtain ⟨other, hother, hdata⟩ := harrived
    obtain rfl : entry = other := Option.some.inj (hentry.symm.trans hother)
    obtain ⟨heard, hheard, hbytes, -⟩ := h.injected_bytes hentry hcause
    have hfits : heard.bytes.length ≤ frameSize := by
      rw [← hbytes, ← hdata]
      exact incoming.fits
    rw [hdata, hbytes]
    have harrived' : F.Arrived v gatewaySlot .raw ⟨i, heard.bytes, hfits⟩ :=
      ⟨rfl, heard, hheard, rfl⟩
    exact ih harrived' rfl

end VehicleComm.Traffic
