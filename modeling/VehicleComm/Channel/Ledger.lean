import VehicleComm.Channel.BufferPool

/-!
# What becomes of a frame that a process is handed

The receive thread of a NIC takes one frame after the other through the handler (`Process.Moves`).
The ledger of a process sets the frames it was handed against what it has shown: no frame is
forwarded twice, and none is forwarded while it is still ahead of the forward (`Ledger`). In a run
in which buffers and the second NIC are there when a frame needs them, a frame of the ring is
accepted (`TakesAll`), a frame that is due on the other side has been forwarded when the thread has
passed the forward (`ForwardsAll`), and a frame for the `Communicator` has become a message, or is
in the queue, when the thread has passed `notify` (`NotifiesAll`).
-/

set_option autoImplicit false
set_option relaxedAutoImplicit false

namespace VehicleComm.Channel

open Library Network

variable {τ : Type*} {mac : Address} {arrived : Medium → Incoming → Prop} {constructed : Prop}
  {P P' : Process τ}

/-! ### One step of a receive thread -/

/-- A frame with an Ethernet header of the library. -/
def Framed (data : List UInt8) : Prop := headerSize ≤ data.length ∧ etherType data = proto

/-- Bytes that start with a header of the library. -/
theorem framed_of_header {dst src : Address} {bytes : List UInt8}
    (hlength : headerSize + packetHeaderSize ≤ bytes.length)
    (hheader : bytes.take headerSize = etherHeader dst src proto) : Framed bytes :=
  ⟨(Nat.le_add_right _ _).trans hlength, (fields_of_etherHeader hheader).2.2⟩

/-- What a step of the receive thread of NIC `n` does: where the thread goes, what is in the queue
afterwards, and what it shows. -/
inductive Process.Moves (P : Process τ) (n : Medium) (gps : UInt8) :
    HandlerPhase → HandlerPhase → (Medium → List Held) → Event → Prop
  | unbuffered (incoming : Incoming) : (P.nic n).freeList = [] →
    P.Moves n gps (.handler incoming) .idle P.held .quiet
  | dropped (incoming : Incoming) (b : Fin bufferSize) : (n = .shm → ¬Framed incoming.data) →
    P.Moves n gps (.handler incoming) (.discard b) P.held .quiet
  | accepted (incoming : Incoming) (b : Fin bufferSize) :
    P.Moves n gps (.handler incoming) (.update incoming gps b) P.held (.accepted n incoming gps)
  | ended (incoming : Incoming) (reading : UInt8) (b : Fin bufferSize) :
    ¬Propagated n incoming.data →
    P.Moves n gps (.update incoming reading b) (.freeBuffer b) P.held .quiet
  | kept (incoming : Incoming) (reading : UInt8) (b : Fin bufferSize) :
    P.forwardCopy n ((P.nic n).buffers b) = none →
    P.Moves n gps (.update incoming reading b) (.notify incoming reading b) P.held .quiet
  | copied (incoming : Incoming) (reading : UInt8) (b c : Fin bufferSize) :
    P.Moves n gps (.update incoming reading b)
      (.forward incoming reading b (.stamp c)) P.held .quiet
  | stamped (incoming : Incoming) (reading : UInt8) (b c : Fin bufferSize) (q : UInt8) :
    P.Moves n gps (.forward incoming reading b (.stamp c))
      (.forward incoming reading b (.transmit c q)) P.held .quiet
  | transmitted (incoming : Incoming) (reading : UInt8) (b c : Fin bufferSize) (q : UInt8)
    (bytes : List UInt8) :
    P.Moves n gps (.forward incoming reading b (.transmit c q))
      (.forward incoming reading b (.release c)) P.held
        (.transmitted n.other bytes q (.forwarded incoming.source reading))
  | released (incoming : Incoming) (reading : UInt8) (b c : Fin bufferSize) :
    P.Moves n gps (.forward incoming reading b (.release c))
      (.notify incoming reading b) P.held .quiet
  | delivered (incoming : Incoming) (reading : UInt8) (b : Fin bufferSize) :
    P.Moves n gps (.notify incoming reading b) (.freeBuffer b) P.held
      (delivery n ⟨b, incoming, reading⟩ (some (messageOf incoming.data maxSize)))
  | queued (incoming : Incoming) (reading : UInt8) (b : Fin bufferSize) :
    P.Moves n gps (.notify incoming reading b) .idle
      (Function.update P.held n (P.held n ++ [⟨b, incoming, reading⟩])) .quiet
  | unobserved (incoming : Incoming) (reading : UInt8) (b : Fin bufferSize) :
    packetDstPort incoming.data ∉ P.observers →
    P.Moves n gps (.notify incoming reading b) (.freeBuffer b) P.held .quiet
  | discarded (b : Fin bufferSize) : P.Moves n gps (.discard b) .idle P.held .quiet
  | freed (b : Fin bufferSize) : P.Moves n gps (.freeBuffer b) .idle P.held .quiet

/-- The receive handler. -/
theorem Process.moves_handle (P : Process τ) (n : Medium) (incoming : Incoming) (gps : UInt8) :
    P.Moves n gps (.handler incoming) ((P.handle n incoming gps).1.receiver n)
      (P.handle n incoming gps).1.held (P.handle n incoming gps).2 := by
  unfold handle
  cases halloc : (P.nic n).allocBuf with
  | none =>
    simp only [setReceiver_receiver_self]
    exact .unbuffered incoming (Nic.allocBuf_eq_none_iff.mp halloc)
  | some taken =>
    obtain ⟨nic, b⟩ := taken
    have hstart := ((nic.buffers b).data).take_store_zero incoming.fits
    simp only [min_eq_left incoming.fits, List.take_length]
    split_ifs with hshort hdrop htype
    · simp only [setReceiver_receiver_self]
      exact .dropped incoming b fun _ hframed ↦ absurd hframed.1 (not_le.mpr hshort)
    · simp only [setReceiver_receiver_self]
      refine .dropped incoming b fun hn ↦ ?_
      subst hn
      exact absurd hdrop (by simp [engineShouldDropFrame])
    · simp only [setReceiver_receiver_self]
      exact .accepted incoming b
    · simp only [setReceiver_receiver_self]
      refine .dropped incoming b fun _ hframed ↦ htype ?_
      rw [← etherType_take hframed.1, hstart]
      exact hframed.2

/-- `Protocol::update`. -/
theorem Process.moves_update (P : Process τ) (n : Medium) {incoming : Incoming}
    (reading gps : UInt8)
    {b : Fin bufferSize} (hloaded : Loaded incoming ((P.nic n).buffers b)) :
    P.Moves n gps (.update incoming reading b) ((P.update n incoming reading b).receiver n)
      (P.update n incoming reading b).held .quiet := by
  unfold update
  dsimp only
  split_ifs with hshort hsptp
  · rw [setReceiver_receiver_self]
    refine .ended incoming reading b fun hpropagated ↦ ?_
    have hlength := hpropagated.length
    rw [← hloaded.length] at hlength
    exact absurd (Nat.le_of_add_le_add_left hlength) (not_le.mpr hshort)
  · rw [setReceiver_receiver_self]
    refine .ended incoming reading b fun hpropagated ↦ ?_
    have hdata := hpropagated.kind hsptp.1
    rw [← hloaded.isSptp (not_lt.mp hshort), hsptp.2] at hdata
    cases hdata
  · cases hcopy : P.forwardCopy n ((P.nic n).buffers b) with
    | none =>
      rw [setReceiver_receiver_self]
      exact .kept incoming reading b hcopy
    | some taken =>
      simp only [setReceiver_receiver_self]
      exact .copied incoming reading b taken.2

/-- `notify`. -/
theorem Process.moves_notify (P : Process τ) (n : Medium) {incoming : Incoming}
    (reading gps : UInt8)
    {b : Fin bufferSize} (hloaded : Loaded incoming ((P.nic n).buffers b))
    (hpropagated : Propagated n incoming.data) :
    P.Moves n gps (.notify incoming reading b) ((P.notify n incoming reading b).1.receiver n)
      (P.notify n incoming reading b).1.held (P.notify n incoming reading b).2 := by
  unfold notify
  rw [hloaded.packetDstPort hpropagated.length, hloaded.unpack hpropagated.length]
  split_ifs with hobserved hwatched
  · simp only [setReceiver_receiver_self]
    exact .delivered incoming reading b
  · simp only [setReceiver_receiver_self]
    exact .queued incoming reading b
  · simp only [setReceiver_receiver_self]
    exact .unobserved incoming reading b hobserved

/-- Every step of a receive thread. -/
theorem Process.Sound.moves (h : P.Sound mac arrived constructed) {n : Medium} {gps : UInt8}
    {event : Event} (hstep : P.receive n gps = some (P', event)) :
    P.Moves n gps (P.receiver n) (P'.receiver n) P'.held event := by
  unfold Process.receive at hstep
  split at hstep
  case h_1 => cases hstep
  case h_2 incoming hphase =>
    rw [hphase]
    obtain rfl : (P.handle n incoming gps).1 = P' := by rw [Option.some.inj hstep]
    obtain rfl : (P.handle n incoming gps).2 = event := by rw [Option.some.inj hstep]
    exact P.moves_handle n incoming gps
  case h_3 incoming reading b hphase =>
    have hclaim := h.ownClaim (n := n) (b := b) (by rw [hphase]; exact List.mem_singleton_self b)
    rw [hphase] at hclaim ⊢
    obtain ⟨rfl, rfl⟩ := Prod.mk.inj (Option.some.inj hstep)
    exact P.moves_update n reading gps hclaim.1
  case h_4 incoming reading b send hphase =>
    rw [hphase]
    obtain ⟨rfl, rfl⟩ := Prod.mk.inj (Option.some.inj hstep)
    rw [Process.setReceiver_receiver_self]
    cases send with
    | stamp c => exact .stamped incoming reading b c _
    | transmit c q => exact .transmitted incoming reading b c q _
    | release c => exact .released incoming reading b c
  case h_5 incoming reading b hphase =>
    have hclaim := h.ownClaim (n := n) (b := b) (by rw [hphase]; exact List.mem_singleton_self b)
    rw [hphase] at hclaim ⊢
    obtain rfl : (P.notify n incoming reading b).1 = P' := by rw [Option.some.inj hstep]
    obtain rfl : (P.notify n incoming reading b).2 = event := by rw [Option.some.inj hstep]
    exact P.moves_notify n reading gps hclaim.1 hclaim.2.2
  case h_6 b hphase =>
    rw [hphase]
    obtain ⟨rfl, rfl⟩ := Prod.mk.inj (Option.some.inj hstep)
    rw [Process.setReceiver_receiver_self]
    exact .discarded b
  case h_7 b hphase =>
    rw [hphase]
    obtain ⟨rfl, rfl⟩ := Prod.mk.inj (Option.some.inj hstep)
    rw [Process.setReceiver_receiver_self]
    rcases P.freeBuffer_cases n b with hfreed | hlost
    · rw [hfreed]
      exact .freed b
    · rw [hlost]
      exact .freed b

/-! ### The steps of the other threads -/

/-- The frame of NIC `n` that is forwarded. -/
def Event.forwards (n : Medium) : Event → Option ℕ
  | .transmitted m _ _ (.forwarded source _) => if m = n.other then some source else none
  | _ => none

/-- The event is not one of a receive thread before `notify`. -/
structure Event.Calm (event : Event) : Prop where
  forwards : ∀ n, event.forwards n = none
  accepts : ∀ n incoming reading, event ≠ .accepted n incoming reading

theorem calm_quiet : Event.quiet.Calm := ⟨fun _ ↦ rfl, fun _ _ _ heq ↦ by cases heq⟩

theorem calm_transmission (n : Medium) (nic : Nic) (request : SendRequest) (found : UInt8)
    (send : SendPhase) : (transmission n nic (.sent request found) send).Calm := by
  cases send with
  | stamp b => exact calm_quiet
  | transmit b q => exact ⟨fun _ ↦ rfl, fun _ _ _ heq ↦ by cases heq⟩
  | release b => exact calm_quiet

theorem calm_delivery (n : Medium) (held : Held) (message : Option Message) :
    (delivery n held message).Calm := by
  cases message with
  | none => exact calm_quiet
  | some message =>
    rw [delivery]
    split_ifs
    · exact calm_quiet
    · exact ⟨fun _ ↦ rfl, fun _ _ _ heq ↦ by cases heq⟩

def ProcessAction.receives : ProcessAction τ → Bool
  | .arrive _ _ | .receive _ _ | .forwardFails => true
  | .construct | .attach _ | .detach _ | .watch _ | .unwatch _ | .callSend _ _ | .send _ _
  | .sendFails _ | .receiveMessage _ _ _ => false

/-- The other actions leave the receive threads alone. -/
theorem Process.calm_step [DecidableEq τ] {action : ProcessAction τ} {event : Event}
    (haway : action.receives = false) (hstep : P.step action = some (P', event)) :
    P'.receiver = P.receiver ∧ event.Calm := by
  cases action with
  | construct =>
    obtain ⟨later, hlater, heq⟩ := Option.map_eq_some_iff.mp hstep
    cases heq
    exact ⟨(sameThreads_construct hlater).receiver, calm_quiet⟩
  | attach port =>
    refine ⟨(sameThreads_step rfl hstep).1.receiver, ?_⟩
    obtain ⟨later, hlater, heq⟩ := Option.map_eq_some_iff.mp hstep
    cases heq
    exact calm_quiet
  | detach port =>
    obtain ⟨rfl, rfl⟩ := Prod.mk.inj (Option.some.inj hstep)
    exact ⟨rfl, calm_quiet⟩
  | watch port =>
    obtain ⟨rfl, rfl⟩ := Prod.mk.inj (Option.some.inj hstep)
    exact ⟨rfl, calm_quiet⟩
  | unwatch port =>
    obtain ⟨rfl, rfl⟩ := Prod.mk.inj (Option.some.inj hstep)
    exact ⟨rfl, calm_quiet⟩
  | callSend t request =>
    obtain ⟨later, hlater, heq⟩ := Option.map_eq_some_iff.mp hstep
    cases heq
    unfold callSend at hlater
    split at hlater
    · split_ifs at hlater
      split at hlater
      · cases hlater
        exact ⟨rfl, calm_quiet⟩
      · cases hlater
        exact ⟨rfl, calm_quiet⟩
    · cases hlater
  | send t gps =>
    have hsend : P.send t gps = some (P', event) := hstep
    unfold send at hsend
    split at hsend
    · cases hsend
    · obtain ⟨rfl, rfl⟩ := Prod.mk.inj (Option.some.inj hsend)
      exact ⟨rfl, calm_transmission _ _ _ _ _⟩
  | sendFails t =>
    obtain ⟨later, hlater, heq⟩ := Option.map_eq_some_iff.mp hstep
    cases heq
    obtain ⟨request, found, b, reading, -, rfl⟩ := sendFails_cases hlater
    exact ⟨rfl, calm_quiet⟩
  | receiveMessage n j capacity =>
    have hreceived : P.receiveMessage n j capacity = some (P', event) := hstep
    unfold receiveMessage at hreceived
    split at hreceived
    · cases hreceived
    · rename_i held _
      split_ifs at hreceived
      obtain ⟨rfl, rfl⟩ := Prod.mk.inj (Option.some.inj hreceived)
      refine ⟨?_, fun _ ↦ rfl, fun _ _ _ heq ↦ by cases heq⟩
      rcases P.freeBuffer_cases n held.b with hfreed | hlost
      · rw [hfreed]
        rfl
      · rw [hlost]
        rfl
  | arrive n incoming => cases haway
  | receive n gps => cases haway
  | forwardFails => cases haway

/-! ### The ledger -/

/-- The frame that the thread has not taken past the forward. -/
def HandlerPhase.unforwarded : HandlerPhase → Option Incoming
  | .handler incoming | .update incoming _ _ => some incoming
  | .forward incoming _ _ (.stamp _) | .forward incoming _ _ (.transmit _ _) => some incoming
  | _ => none

/-- The frame that the thread has not taken past `notify`. -/
def HandlerPhase.unnotified : HandlerPhase → Option Incoming
  | .handler incoming | .update incoming _ _ | .forward incoming _ _ _ | .notify incoming _ _ =>
    some incoming
  | _ => none

theorem HandlerPhase.unnotified_of_unforwarded {phase : HandlerPhase} {incoming : Incoming}
    (h : phase.unforwarded = some incoming) : phase.unnotified = some incoming := by
  cases phase with
  | handler other => exact h
  | update other reading b => exact h
  | forward other reading b send =>
    cases send with
    | stamp c => exact h
    | transmit c q => exact h
    | release c => cases h
  | idle => cases h
  | notify other reading b => cases h
  | discard b => cases h
  | freeBuffer b => cases h

/-- The sources of the frames of NIC `n` that were forwarded. -/
def forwardsOf (n : Medium) (events : List Event) : List ℕ := events.filterMap (Event.forwards n)

theorem forwardsOf_concat_calm {event : Event} (hcalm : event.Calm) (n : Medium)
    (events : List Event) : forwardsOf n (events ++ [event]) = forwardsOf n events := by
  simp [forwardsOf, hcalm.forwards]

/-- The ledger of a process that was handed some frames and has shown some events: the frames handed
over differ, those that a receive thread works on and those accepted are among them, and a frame is
forwarded once, not before the thread is past the forward. -/
structure Process.Ledger (P : Process τ) (handed : Medium → List Incoming) (events : List Event) :
    Prop where
  distinct : ∀ n, ((handed n).map Incoming.source).Nodup
  current : ∀ n incoming, (P.receiver n).unnotified = some incoming → incoming ∈ handed n
  fresh : ∀ n incoming reading, P.receiver n = .handler incoming →
    .accepted n incoming reading ∉ events
  accepted : ∀ n incoming reading, .accepted n incoming reading ∈ events → incoming ∈ handed n
  forwarded : ∀ n, ∀ source ∈ forwardsOf n events,
    ∃ incoming ∈ handed n, incoming.source = source ∧ (P.receiver n).unforwarded ≠ some incoming
  once : ∀ n, (forwardsOf n events).Nodup

theorem Process.ledger_create (gateway : Bool) (mac : Address)
    (buffers : Medium → Fin bufferSize → Buffer) :
    (Process.create gateway mac buffers : Process τ).Ledger (fun _ ↦ []) [] where
  distinct _ := List.nodup_nil
  current _ _ h := by cases h
  fresh _ _ _ h := by cases h
  accepted _ _ _ h := absurd h List.not_mem_nil
  forwarded _ _ h := absurd h List.not_mem_nil
  once _ := List.nodup_nil

variable {handed : Medium → List Incoming} {events : List Event}

/-- A step that leaves the receive threads alone. -/
theorem Process.Ledger.of_calm (h : P.Ledger handed events) {event : Event}
    (hreceiver : P'.receiver = P.receiver) (hcalm : event.Calm) :
    P'.Ledger handed (events ++ [event]) where
  distinct := h.distinct
  current := by
    rw [hreceiver]
    exact h.current
  fresh n incoming reading hphase hin := by
    rw [hreceiver] at hphase
    rcases List.mem_append.mp hin with hold | hnew
    · exact h.fresh n incoming reading hphase hold
    · exact hcalm.accepts n incoming reading (List.mem_singleton.mp hnew).symm
  accepted n incoming reading hin := by
    rcases List.mem_append.mp hin with hold | hnew
    · exact h.accepted n incoming reading hold
    · exact absurd (List.mem_singleton.mp hnew).symm (hcalm.accepts n incoming reading)
  forwarded n source hin := by
    rw [forwardsOf_concat_calm hcalm] at hin
    rw [hreceiver]
    exact h.forwarded n source hin
  once n := by
    rw [forwardsOf_concat_calm hcalm]
    exact h.once n

section Moves

variable {n : Medium} {gps : UInt8} {phase phase' : HandlerPhase} {held : Medium → List Held}
  {event : Event}

/-- A step takes up no frame. -/
theorem Process.Moves.unnotified (h : P.Moves n gps phase phase' held event) {incoming : Incoming}
    (hafter : phase'.unnotified = some incoming) : phase.unnotified = some incoming := by
  cases h <;> first | exact hafter | cases hafter

theorem Process.Moves.unforwarded (h : P.Moves n gps phase phase' held event) {incoming : Incoming}
    (hafter : phase'.unforwarded = some incoming) : phase.unforwarded = some incoming := by
  cases h <;> first | exact hafter | cases hafter

theorem Process.Moves.not_handler (h : P.Moves n gps phase phase' held event)
    (incoming : Incoming) : phase' ≠ .handler incoming := by
  rintro rfl
  cases h

/-- A frame is accepted when the handler is done with it. -/
theorem Process.Moves.accepts (h : P.Moves n gps phase phase' held event) {m : Medium}
    {incoming : Incoming} {reading : UInt8} (hevent : event = .accepted m incoming reading) :
    m = n ∧ phase = .handler incoming := by
  cases h with
  | accepted other b =>
    cases hevent
    exact ⟨rfl, rfl⟩
  | delivered other under b =>
    exact absurd hevent ((calm_delivery _ _ _).accepts m incoming reading)
  | _ => cases hevent

/-- A frame is forwarded when the engine has been given the copy. -/
theorem Process.Moves.forwards (h : P.Moves n gps phase phase' held event) {m : Medium}
    {source : ℕ} (hevent : event.forwards m = some source) :
    m = n ∧ ∃ incoming, incoming.source = source ∧ phase.unforwarded = some incoming ∧
      phase'.unforwarded = none := by
  cases h with
  | transmitted incoming reading b c q bytes =>
    simp only [Event.forwards] at hevent
    split_ifs at hevent with hother
    refine ⟨?_, incoming, Option.some.inj hevent, rfl, rfl⟩
    rw [← Medium.other_other m, ← hother, Medium.other_other]
  | delivered other under b =>
    rw [(calm_delivery _ _ _).forwards] at hevent
    cases hevent
  | _ => cases hevent

end Moves

theorem mem_forwardsOf_concat {n : Medium} {source : ℕ} {event : Event} :
    source ∈ forwardsOf n (events ++ [event]) ↔
      source ∈ forwardsOf n events ∨ event.forwards n = some source := by
  simp [forwardsOf, List.filterMap_append]

/-- A frame that is handed over. -/
theorem Process.Ledger.arrive (h : P.Ledger handed events) {n : Medium} {incoming : Incoming}
    (hnew : incoming.source ∉ (handed n).map Incoming.source)
    (hstep : P.arrive n incoming = some P') :
    P'.Ledger (Function.update handed n (handed n ++ [incoming])) (events ++ [.quiet]) := by
  unfold Process.arrive at hstep
  split at hstep
  case h_2 => cases hstep
  case h_1 hidle =>
  split_ifs at hstep
  cases hstep
  have hmem : ∀ m other, other ∈ handed m →
      other ∈ Function.update handed n (handed n ++ [incoming]) m := by
    intro m other hin
    by_cases hm : m = n
    · subst hm
      rw [Function.update_self]
      exact List.mem_append_left _ hin
    · rwa [Function.update_of_ne hm]
  constructor
  · intro m
    by_cases hm : m = n
    · subst hm
      rw [Function.update_self, List.map_append, List.map_singleton, ← List.concat_eq_append]
      exact (h.distinct m).concat hnew
    · rw [Function.update_of_ne hm]
      exact h.distinct m
  · intro m other hother
    by_cases hm : m = n
    · subst hm
      rw [Process.setReceiver_receiver_self] at hother
      rw [Function.update_self, ← Option.some.inj hother]
      exact List.mem_append_right _ List.mem_cons_self
    · rw [Process.setReceiver_receiver_of_ne _ _ hm] at hother
      exact hmem m other (h.current m other hother)
  · intro m other reading hphase hin
    rcases List.mem_append.mp hin with hold | hquiet
    · by_cases hm : m = n
      · subst hm
        rw [Process.setReceiver_receiver_self] at hphase
        obtain rfl : incoming = other := HandlerPhase.handler.inj hphase
        exact hnew (List.mem_map_of_mem (h.accepted m incoming reading hold))
      · rw [Process.setReceiver_receiver_of_ne _ _ hm] at hphase
        exact h.fresh m other reading hphase hold
    · exact absurd (List.mem_singleton.mp hquiet) fun heq ↦ by cases heq
  · intro m other reading hin
    rcases List.mem_append.mp hin with hold | hquiet
    · exact hmem m other (h.accepted m other reading hold)
    · exact absurd (List.mem_singleton.mp hquiet) fun heq ↦ by cases heq
  · intro m source hin
    rw [forwardsOf_concat_calm calm_quiet] at hin
    obtain ⟨other, hother, hsource, hpast⟩ := h.forwarded m source hin
    refine ⟨other, hmem m other hother, hsource, ?_⟩
    by_cases hm : m = n
    · subst hm
      rw [Process.setReceiver_receiver_self]
      intro heq
      obtain rfl : incoming = other := Option.some.inj heq
      exact hnew (List.mem_map_of_mem hother)
    · rwa [Process.setReceiver_receiver_of_ne _ _ hm]
  · intro m
    rw [forwardsOf_concat_calm calm_quiet]
    exact h.once m

/-- Of frames with different sources, the source tells which it is. -/
theorem Process.Ledger.eq_of_source (h : P.Ledger handed events) {n : Medium}
    {incoming other : Incoming} (hin : incoming ∈ handed n) (hother : other ∈ handed n)
    (hsource : incoming.source = other.source) : incoming = other :=
  List.inj_on_of_nodup_map (h.distinct n) hin hother hsource

/-- A step of a receive thread. -/
theorem Process.Ledger.receive (h : P.Ledger handed events) {n : Medium} {gps : UInt8}
    {event : Event} (hothers : ∀ m, m ≠ n → P'.receiver m = P.receiver m)
    (hmoves : P.Moves n gps (P.receiver n) (P'.receiver n) P'.held event) :
    P'.Ledger handed (events ++ [event]) := by
  constructor
  · exact h.distinct
  · intro m incoming hafter
    by_cases hm : m = n
    · subst hm
      exact h.current m incoming (hmoves.unnotified hafter)
    · rw [hothers m hm] at hafter
      exact h.current m incoming hafter
  · intro m incoming reading hphase hin
    by_cases hm : m = n
    · subst hm
      exact hmoves.not_handler incoming hphase
    · rw [hothers m hm] at hphase
      rcases List.mem_append.mp hin with hold | hnew
      · exact h.fresh m incoming reading hphase hold
      · exact hm (hmoves.accepts (List.mem_singleton.mp hnew).symm).1
  · intro m incoming reading hin
    rcases List.mem_append.mp hin with hold | hnew
    · exact h.accepted m incoming reading hold
    · obtain ⟨rfl, hphase⟩ := hmoves.accepts (List.mem_singleton.mp hnew).symm
      exact h.current m incoming (by rw [hphase]; rfl)
  · intro m source hin
    rcases mem_forwardsOf_concat.mp hin with hold | hnew
    · obtain ⟨incoming, hhanded, hsource, hpast⟩ := h.forwarded m source hold
      refine ⟨incoming, hhanded, hsource, fun hafter ↦ hpast ?_⟩
      by_cases hm : m = n
      · subst hm
        exact hmoves.unforwarded hafter
      · rwa [hothers m hm] at hafter
    · obtain ⟨rfl, incoming, hsource, hbefore, hafter⟩ := hmoves.forwards hnew
      refine ⟨incoming, ?_, hsource, ?_⟩
      · exact h.current m incoming (HandlerPhase.unnotified_of_unforwarded hbefore)
      · rw [hafter]
        exact fun heq ↦ by cases heq
  · intro m
    cases hnew : event.forwards m with
    | none =>
      have hsame : forwardsOf m (events ++ [event]) = forwardsOf m events := by
        simp [forwardsOf, hnew]
      rw [hsame]
      exact h.once m
    | some source =>
      have hone : forwardsOf m (events ++ [event]) = forwardsOf m events ++ [source] := by
        simp [forwardsOf, hnew]
      rw [hone, ← List.concat_eq_append]
      refine (h.once m).concat fun hold ↦ ?_
      obtain ⟨rfl, incoming, hsource, hbefore, -⟩ := hmoves.forwards hnew
      obtain ⟨other, hother, hsame, hpast⟩ := h.forwarded m source hold
      have hin := h.current m incoming (HandlerPhase.unnotified_of_unforwarded hbefore)
      rw [h.eq_of_source hother hin (hsame.trans hsource.symm)] at hpast
      exact hpast hbefore

/-- A step that shows nothing where it could have shown something. -/
theorem Process.Ledger.of_quiet {event : Event} (h : P.Ledger handed (events ++ [event])) :
    P.Ledger handed (events ++ [.quiet]) := by
  have hforwards : ∀ n, forwardsOf n (events ++ [.quiet]) = forwardsOf n events :=
    fun n ↦ forwardsOf_concat_calm calm_quiet n events
  have hold : ∀ {x : Event}, x ≠ .quiet → x ∈ events ++ [.quiet] → x ∈ events ++ [event] := by
    intro x hne hin
    rcases List.mem_append.mp hin with hbefore | hnew
    · exact List.mem_append_left _ hbefore
    · exact absurd (List.mem_singleton.mp hnew) hne
  refine ⟨h.distinct, h.current, fun n incoming reading hphase hin ↦ ?_,
    fun n incoming reading hin ↦ ?_, fun n source hin ↦ ?_, fun n ↦ ?_⟩
  · exact h.fresh n incoming reading hphase (hold (fun heq ↦ by cases heq) hin)
  · exact h.accepted n incoming reading (hold (fun heq ↦ by cases heq) hin)
  · rw [hforwards] at hin
    exact h.forwarded n source (mem_forwardsOf_concat.mpr (Or.inl hin))
  · rw [hforwards]
    have honce := h.once n
    rw [forwardsOf, List.filterMap_append] at honce
    exact honce.of_append_left

def handedAfter (handed : Medium → List Incoming) : ProcessAction τ → Medium → List Incoming
  | .arrive n incoming => Function.update handed n (handed n ++ [incoming])
  | _ => handed

theorem handedAfter_of_calm {action : ProcessAction τ} (haway : action.receives = false) :
    handedAfter handed action = handed := by
  cases action with
  | arrive n incoming => cases haway
  | _ => rfl

theorem mem_handedAfter {action : ProcessAction τ} {n : Medium} {incoming : Incoming}
    (hin : incoming ∈ handedAfter handed action n) :
    incoming ∈ handed n ∨ action = .arrive n incoming := by
  cases action with
  | arrive m other =>
    by_cases hn : n = m
    · subst hn
      simp only [handedAfter, Function.update_self] at hin
      refine (List.mem_append.mp hin).imp_right fun hnew ↦ ?_
      rw [List.mem_singleton.mp hnew]
    · simp only [handedAfter, Function.update_of_ne hn] at hin
      exact Or.inl hin
  | _ => exact Or.inl hin

/-- Every step keeps the ledger. Assumes: a frame that is handed over is a new one. -/
theorem Process.Ledger.step [DecidableEq τ] (h : P.Ledger handed events)
    (hsound : P.Sound mac arrived constructed) {action : ProcessAction τ} {event : Event}
    (hnew : ∀ n incoming, action = .arrive n incoming →
      incoming.source ∉ (handed n).map Incoming.source)
    (hstep : P.step action = some (P', event)) :
    P'.Ledger (handedAfter handed action) (events ++ [event]) := by
  cases haction : action.receives with
  | false =>
    obtain ⟨hreceiver, hcalm⟩ := Process.calm_step haction hstep
    rw [handedAfter_of_calm haction]
    exact h.of_calm hreceiver hcalm
  | true =>
    cases action with
    | arrive n incoming =>
      obtain ⟨later, hlater, heq⟩ := Option.map_eq_some_iff.mp hstep
      cases heq
      exact h.arrive (hnew n incoming rfl) hlater
    | receive n gps =>
      exact h.receive (Process.receiverStep_receive hstep).receiver (hsound.moves hstep)
    | forwardFails =>
      obtain ⟨later, hlater, heq⟩ := Option.map_eq_some_iff.mp hstep
      cases heq
      obtain ⟨shown, hsent⟩ := Process.receive_of_forwardFails hlater
      exact (h.receive (Process.receiverStep_receive hsent).receiver (hsound.moves hsent)).of_quiet
    | _ => cases haction

/-! ### Frames that are taken -/

/-- Every wanted frame of the library that the ring handed over has been accepted, or is in the
handler. -/
def Process.TakesAll (P : Process τ) (wanted : List UInt8 → Prop) (handed : Medium → List Incoming)
    (events : List Event) : Prop :=
  ∀ incoming ∈ handed .shm, wanted incoming.data → Framed incoming.data →
    P.receiver .shm = .handler incoming ∨ ∃ reading, .accepted .shm incoming reading ∈ events

/-- Assumes: a buffer is free when the handler of the ring needs one for a wanted frame. -/
theorem Process.TakesAll.step [DecidableEq τ] {wanted : List UInt8 → Prop}
    (h : P.TakesAll wanted handed events)
    (hsound : P.Sound mac arrived constructed) {action : ProcessAction τ} {event : Event}
    (hroom : ∀ gps incoming, action = .receive .shm gps → P.receiver .shm = .handler incoming →
      wanted incoming.data → (P.nic .shm).freeList ≠ [])
    (hstep : P.step action = some (P', event)) :
    P'.TakesAll wanted (handedAfter handed action) (events ++ [event]) := by
  intro incoming hin hwanted hframed
  have hkept : ∀ reading, .accepted .shm incoming reading ∈ events →
      P'.receiver .shm = .handler incoming ∨
        ∃ reading, .accepted .shm incoming reading ∈ events ++ [event] := fun reading hold ↦
    Or.inr ⟨reading, List.mem_append_left _ hold⟩
  cases haction : action.receives with
  | false =>
    obtain ⟨hreceiver, -⟩ := Process.calm_step haction hstep
    rw [handedAfter_of_calm haction] at hin
    rw [hreceiver]
    rcases h incoming hin hwanted hframed with hwaits | ⟨reading, hold⟩
    · exact Or.inl hwaits
    · exact Or.inr ⟨reading, List.mem_append_left _ hold⟩
  | true =>
    cases action with
    | arrive n other =>
      obtain ⟨later, hlater, heq⟩ := Option.map_eq_some_iff.mp hstep
      cases heq
      unfold Process.arrive at hlater
      split at hlater
      case h_2 => cases hlater
      case h_1 hidle =>
      split_ifs at hlater
      cases hlater
      simp only [handedAfter] at hin
      cases n with
      | raw =>
        rw [Function.update_of_ne (by decide)] at hin
        rw [Process.setReceiver_receiver_of_ne _ _ (by decide)]
        rcases h incoming hin hwanted hframed with hwaits | ⟨reading, hold⟩
        · exact Or.inl hwaits
        · exact Or.inr ⟨reading, List.mem_append_left _ hold⟩
      | shm =>
        rw [Function.update_self] at hin
        rcases List.mem_append.mp hin with hold | hnew
        · rcases h incoming hold hwanted hframed with hwaits | ⟨reading, haccepted⟩
          · rw [hidle] at hwaits
            cases hwaits
          · exact hkept reading haccepted
        · rw [List.mem_singleton.mp hnew, Process.setReceiver_receiver_self]
          exact Or.inl rfl
    | receive n gps =>
      have hreceived := Process.receiverStep_receive hstep
      rcases h incoming hin hwanted hframed with hwaits | ⟨reading, haccepted⟩
      · cases n with
        | raw =>
          rw [hreceived.receiver .shm (by decide)]
          exact Or.inl hwaits
        | shm =>
          have hmoves := hsound.moves hstep
          rw [hwaits] at hmoves
          generalize P'.held = held' at hmoves
          generalize P'.receiver .shm = phase' at hmoves ⊢
          cases hmoves with
          | unbuffered _ hfull => exact absurd hfull (hroom gps incoming rfl hwaits hwanted)
          | dropped _ b hbad => exact absurd hframed (hbad rfl)
          | accepted _ b =>
            exact Or.inr ⟨gps, List.mem_append_right _ (List.mem_singleton_self _)⟩
      · exact hkept reading haccepted
    | forwardFails =>
      obtain ⟨later, hlater, heq⟩ := Option.map_eq_some_iff.mp hstep
      cases heq
      obtain ⟨other, under, b, copy, reading, hphase, rfl⟩ := Process.forwardFails_cases hlater
      rcases h incoming hin hwanted hframed with hwaits | ⟨reading, haccepted⟩
      · cases hphase.symm.trans hwaits
      · exact hkept reading haccepted
    | _ => cases haction

/-! ### Frames that are forwarded -/

/-- The frame is one that NIC `n` forwards to the other NIC. -/
structure Process.Due (P : Process τ) (n : Medium) (data : List UInt8) : Prop where
  propagated : Propagated n data
  network : n = .shm → P.gateway = true ∧ forwardsToNetwork data = true

instance (P : Process τ) (n : Medium) (data : List UInt8) : Decidable (P.Due n data) :=
  decidable_of_iff
    ((headerSize + packetHeaderSize ≤ data.length ∧ (n = .raw → isSptp data = false)) ∧
      (n = .shm → P.gateway = true ∧ forwardsToNetwork data = true))
    ⟨fun h ↦ ⟨⟨h.1.1, h.1.2⟩, h.2⟩, fun h ↦ ⟨⟨h.propagated.length, h.propagated.kind⟩, h.network⟩⟩

/-- A copy is made when there is a buffer for it and the other NIC exists. -/
theorem Process.forwardCopy_of_due {n : Medium} {incoming : Incoming} {buffer : Buffer}
    (hdue : P.Due n incoming.data) (hloaded : Loaded incoming buffer)
    (hroom : (P.nic n.other).freeList ≠ []) (hsocket : n = .shm → P.stage ≠ .shmAttached) :
    P.forwardCopy n buffer ≠ none := by
  have halloc : ∀ dst, (P.nic n.other).alloc dst proto buffer.size ≠ none := by
    intro dst hnone
    rcases Nic.alloc_eq_none_iff.mp hnone with hlarge | hfull
    · exact absurd hloaded.size_le (not_le.mpr hlarge)
    · exact hroom hfull
  cases n with
  | shm =>
    obtain ⟨hgateway, hforwards⟩ := hdue.network rfl
    rw [← hloaded.forwardsToNetwork] at hforwards
    have hthere : P.hasSocket = true := by simp [hasSocket, hgateway, hsocket rfl]
    simp only [forwardCopy, hthere, hforwards, forwardToNetwork]
    simpa [Medium.other] using halloc .broadcast
  | raw =>
    simp only [forwardCopy, forwardToRing]
    simpa [Medium.other] using halloc _

/-- Every wanted frame that was accepted and is due on the other side has been forwarded, or is
ahead of the forward. -/
def Process.ForwardsAll (P : Process τ) (wanted : Medium → List UInt8 → Prop)
    (events : List Event) : Prop :=
  ∀ n incoming reading, .accepted n incoming reading ∈ events → wanted n incoming.data →
    P.Due n incoming.data →
      (P.receiver n).unforwarded = some incoming ∨ incoming.source ∈ forwardsOf n events

/-- A frame that a receive thread has yet to forward stays so for a step of that thread, or is
forwarded by it. -/
theorem Process.Sound.forwards_receive [DecidableEq τ] (hsound : P.Sound mac arrived constructed)
    {m : Medium} {gps : UInt8} {event : Event} {incoming : Incoming}
    (haccepted : P.receiver m ≠ .handler incoming) (hdue : P.Due m incoming.data)
    (hahead : (P.receiver m).unforwarded = some incoming)
    (hroom : ∀ reading b, P.receiver m = .update incoming reading b →
      (P.nic m.other).freeList ≠ [] ∧ (m = .shm → P.stage ≠ .shmAttached))
    (hstep : P.step (.receive m gps) = some (P', event)) :
    (P'.receiver m).unforwarded = some incoming ∨
      incoming.source ∈ forwardsOf m (events ++ [event]) := by
  have hmoves := hsound.moves hstep
  cases hphase : P.receiver m with
  | handler other =>
    rw [hphase] at hahead
    obtain rfl : other = incoming := Option.some.inj hahead
    exact absurd hphase haccepted
  | update other under b =>
    rw [hphase] at hahead hmoves
    obtain rfl : other = incoming := Option.some.inj hahead
    have hclaim := hsound.ownClaim (n := m) (b := b)
      (by rw [hphase]; exact List.mem_singleton_self b)
    rw [hphase] at hclaim
    obtain ⟨hfree, hsocket⟩ := hroom under b hphase
    generalize P'.held = held' at hmoves
    generalize P'.receiver m = phase' at hmoves ⊢
    cases hmoves with
    | ended _ _ _ hnot => exact absurd hdue.propagated hnot
    | kept _ _ _ hnone =>
      exact absurd hnone (Process.forwardCopy_of_due hdue hclaim.1 hfree hsocket)
    | copied _ _ _ c => exact Or.inl rfl
  | forward other under b send =>
    rw [hphase] at hahead hmoves
    generalize P'.held = held' at hmoves
    generalize P'.receiver m = phase' at hmoves ⊢
    cases hmoves with
    | stamped _ _ _ c q => exact Or.inl hahead
    | transmitted _ _ _ c q bytes =>
      refine Or.inr (mem_forwardsOf_concat.mpr (Or.inr ?_))
      rw [← Option.some.inj hahead]
      simp [Event.forwards]
    | released _ _ _ c => cases hahead
  | idle =>
    rw [hphase] at hahead
    cases hahead
  | notify other under b =>
    rw [hphase] at hahead
    cases hahead
  | discard b =>
    rw [hphase] at hahead
    cases hahead
  | freeBuffer b =>
    rw [hphase] at hahead
    cases hahead

/-- Assumes: when a wanted frame that is due reaches the forward a buffer for the copy is free and
the second NIC is there, and the engine takes the copy. -/
theorem Process.ForwardsAll.step [DecidableEq τ] {wanted : Medium → List UInt8 → Prop}
    (h : P.ForwardsAll wanted events)
    (hledger : P.Ledger handed events) (hsound : P.Sound mac arrived constructed)
    {action : ProcessAction τ} {event : Event}
    (hroom : ∀ n gps incoming reading b, action = .receive n gps →
      P.receiver n = .update incoming reading b → wanted n incoming.data → P.Due n incoming.data →
        (P.nic n.other).freeList ≠ [] ∧ (n = .shm → P.stage ≠ .shmAttached))
    (htaken : ∀ incoming under b copy reading, action = .forwardFails →
      P.receiver .shm = .forward incoming under b (.transmit copy reading) →
        ¬wanted .shm incoming.data)
    (hstep : P.step action = some (P', event)) : P'.ForwardsAll wanted (events ++ [event]) := by
  intro m incoming reading hin hwanted hdue
  have hdue' : P.Due m incoming.data := by
    refine ⟨hdue.propagated, fun hm ↦ ?_⟩
    rw [← (Process.role_step hstep).1]
    exact hdue.network hm
  have hkept : incoming.source ∈ forwardsOf m events →
      (P'.receiver m).unforwarded = some incoming ∨
        incoming.source ∈ forwardsOf m (events ++ [event]) := fun hold ↦
    Or.inr (mem_forwardsOf_concat.mpr (Or.inl hold))
  cases haction : action.receives with
  | false =>
    obtain ⟨hreceiver, hcalm⟩ := Process.calm_step haction hstep
    rcases List.mem_append.mp hin with hold | hnew
    · rcases h m incoming reading hold hwanted hdue' with hahead | hpast
      · rw [hreceiver]
        exact Or.inl hahead
      · exact hkept hpast
    · exact absurd (List.mem_singleton.mp hnew).symm (hcalm.accepts m incoming reading)
  | true =>
    cases action with
    | arrive n other =>
      obtain ⟨later, hlater, heq⟩ := Option.map_eq_some_iff.mp hstep
      cases heq
      unfold Process.arrive at hlater
      split at hlater
      case h_2 => cases hlater
      case h_1 hidle =>
      split_ifs at hlater
      cases hlater
      rcases List.mem_append.mp hin with hold | hnew
      · rcases h m incoming reading hold hwanted hdue' with hahead | hpast
        · by_cases hm : m = n
          · subst hm
            rw [hidle] at hahead
            cases hahead
          · rw [Process.setReceiver_receiver_of_ne _ _ hm]
            exact Or.inl hahead
        · exact hkept hpast
      · cases List.mem_singleton.mp hnew
    | receive n gps =>
      have hreceived := Process.receiverStep_receive hstep
      rcases List.mem_append.mp hin with hold | hnew
      · rcases h m incoming reading hold hwanted hdue' with hahead | hpast
        · by_cases hm : m = n
          · subst hm
            exact hsound.forwards_receive
              (fun hphase ↦ hledger.fresh m incoming reading hphase hold) hdue' hahead
              (fun under b hphase ↦ hroom m gps incoming under b rfl hphase hwanted hdue') hstep
          · rw [hreceived.receiver m hm]
            exact Or.inl hahead
        · exact hkept hpast
      · -- a frame that is accepted goes on to the forward
        have hmoves := hsound.moves hstep
        have hevent := (List.mem_singleton.mp hnew).symm
        obtain ⟨rfl, hphase⟩ := hmoves.accepts hevent
        rw [hphase, hevent] at hmoves
        generalize P'.held = held' at hmoves
        generalize P'.receiver m = phase' at hmoves ⊢
        cases hmoves with
        | accepted _ b => exact Or.inl rfl
    | forwardFails =>
      obtain ⟨later, hlater, heq⟩ := Option.map_eq_some_iff.mp hstep
      cases heq
      obtain ⟨other, under, b, copy, quadrant, hphase, rfl⟩ := Process.forwardFails_cases hlater
      rcases List.mem_append.mp hin with hold | hnew
      · rcases h m incoming reading hold hwanted hdue' with hahead | hpast
        · cases m with
          | shm =>
            rw [hphase] at hahead
            obtain rfl : other = incoming := Option.some.inj hahead
            exact absurd hwanted (htaken other under b copy quadrant rfl hphase)
          | raw =>
            rw [Process.setReceiver_receiver_of_ne _ _ (by decide)]
            exact Or.inl hahead
        · exact hkept hpast
      · cases List.mem_singleton.mp hnew
    | _ => cases haction

/-! ### Frames that the application gets -/

/-- The application has got the frame, or can take it out of the queue. -/
def Process.Obtained (P : Process τ) (events : List Event) (n : Medium) (incoming : Incoming) :
    Prop :=
  (∃ held message, .delivered n held message ∈ events ∧ held.incoming = incoming) ∨
    (∃ held ∈ P.held n, held.incoming = incoming) ∨
      ∃ held capacity message, .received n held capacity message ∈ events ∧
        held.incoming = incoming

variable {n : Medium} {incoming : Incoming}

theorem Process.Obtained.mono (h : P.Obtained events n incoming)
    (hheld : ∀ held ∈ P.held n, held ∈ P'.held n) (event : Event) :
    P'.Obtained (events ++ [event]) n incoming := by
  rcases h with ⟨held, message, hin, hsame⟩ | ⟨held, hin, hsame⟩ |
    ⟨held, capacity, message, hin, hsame⟩
  · exact Or.inl ⟨held, message, List.mem_append_left _ hin, hsame⟩
  · exact Or.inr (Or.inl ⟨held, hheld held hin, hsame⟩)
  · exact Or.inr (Or.inr ⟨held, capacity, message, List.mem_append_left _ hin, hsame⟩)

/-- `Protocol::receive` turns an entry of the queue into a message. -/
theorem Process.Obtained.receiveMessage (h : P.Obtained events n incoming) {m : Medium}
    {j capacity : ℕ} {event : Event}
    (hstep : P.receiveMessage m j capacity = some (P', event)) :
    P'.Obtained (events ++ [event]) n incoming := by
  unfold Process.receiveMessage at hstep
  split at hstep
  case h_1 => cases hstep
  case h_2 entry hentry =>
  split_ifs at hstep
  obtain ⟨rfl, rfl⟩ := Prod.mk.inj (Option.some.inj hstep)
  rcases h with ⟨held, message, hin, hsame⟩ | ⟨held, hin, hsame⟩ | ⟨held, cap, message, hin, hsame⟩
  · exact Or.inl ⟨held, message, List.mem_append_left _ hin, hsame⟩
  · by_cases hm : n = m
    · subst hm
      obtain ⟨i, hi⟩ := List.mem_iff_getElem?.mp hin
      by_cases hij : i = j
      · subst hij
        obtain rfl : entry = held := by
          rw [hentry] at hi
          exact Option.some.inj hi
        exact Or.inr (Or.inr ⟨entry, capacity, _, List.mem_append_right _ List.mem_cons_self,
          hsame⟩)
      · refine Or.inr (Or.inl ⟨held, ?_, hsame⟩)
        simp only [Function.update_self]
        exact List.mem_eraseIdx_iff_getElem?.mpr ⟨i, hij, hi⟩
    · refine Or.inr (Or.inl ⟨held, ?_, hsame⟩)
      simp only [Function.update_of_ne hm]
      exact hin
  · exact Or.inr (Or.inr ⟨held, cap, message, List.mem_append_left _ hin, hsame⟩)

/-- Only a receive thread and `Communicator::receive` change the queue. -/
theorem Process.held_calm [DecidableEq τ] {action : ProcessAction τ} {event : Event}
    (haway : action.receives = false) (hreceive : ∀ n j capacity,
      action ≠ .receiveMessage n j capacity) (hstep : P.step action = some (P', event)) :
    P'.held = P.held := by
  cases action with
  | construct => exact (sameThreads_step rfl hstep).1.held
  | attach port => exact (sameThreads_step rfl hstep).1.held
  | detach port => exact (sameThreads_step rfl hstep).1.held
  | watch port => exact (sameThreads_step rfl hstep).1.held
  | unwatch port => exact (sameThreads_step rfl hstep).1.held
  | callSend t request =>
    obtain ⟨later, hlater, heq⟩ := Option.map_eq_some_iff.mp hstep
    cases heq
    exact (sameQueues_callSend hlater).held
  | send t gps => exact (sameQueues_send hstep).held
  | sendFails t =>
    obtain ⟨later, hlater, heq⟩ := Option.map_eq_some_iff.mp hstep
    cases heq
    obtain ⟨request, found, b, reading, -, rfl⟩ := sendFails_cases hlater
    rfl
  | arrive n incoming => cases haway
  | receive n gps => cases haway
  | forwardFails => cases haway
  | receiveMessage n j capacity => exact absurd rfl (hreceive n j capacity)

/-- A packet with data. -/
def Loads (data : List UInt8) : Prop := headerSize + packetHeaderSize < data.length

theorem Carries.loads {request : SendRequest} {data : List UInt8} (h : Carries request data)
    (hdata : request.data ≠ []) : Loads data := by
  have hpos := List.length_pos_iff.mpr hdata
  rw [Loads, h.length]
  omega

/-- The application has got every wanted packet with data that was accepted, or the thread is not
past `notify`. -/
def Process.NotifiesAll (P : Process τ) (wanted : List UInt8 → Prop) (events : List Event) : Prop :=
  ∀ n incoming reading, .accepted n incoming reading ∈ events → wanted incoming.data →
    Propagated n incoming.data → Loads incoming.data →
      (P.receiver n).unnotified = some incoming ∨ P.Obtained events n incoming

/-- A packet with data makes a message with data. -/
theorem messageOf_data_ne_nil {data : List UInt8} (hloads : Loads data) {capacity : ℕ}
    (hcapacity : 0 < capacity) : (messageOf data capacity).data ≠ [] := by
  have hlength := hloads
  rw [Loads, headerSize, packetHeaderSize] at hlength
  intro hnil
  have hnone := congrArg List.length hnil
  simp only [messageOf, packetData, slice, List.length_take, List.length_drop, List.length_nil,
    headerSize, packetHeaderSize] at hnone
  omega

/-- A receive thread takes nothing out of the queue. -/
theorem Process.Moves.held_mono {gps : UInt8} {phase phase' : HandlerPhase}
    {held : Medium → List Held} {event : Event} (h : P.Moves n gps phase phase' held event)
    (k : Medium) : ∀ entry ∈ P.held k, entry ∈ held k := by
  intro entry hin
  cases h with
  | queued other reading b =>
    by_cases hk : k = n
    · subst hk
      rw [Function.update_self]
      exact List.mem_append_left _ hin
    · rwa [Function.update_of_ne hk]
  | _ => exact hin

/-- A packet with data that is past `notify` has gone to the application. Assumes: the handler has
accepted it, and the `Communicator` listens to its port. -/
theorem Process.Moves.notifies {gps : UInt8} {phase phase' : HandlerPhase}
    {held : Medium → List Held} {event : Event} (h : P.Moves n gps phase phase' held event)
    (hbefore : phase.unnotified = some incoming) (haccepted : phase ≠ .handler incoming)
    (hpropagated : Propagated n incoming.data) (hloads : Loads incoming.data)
    (hport : ∀ reading b, phase = .notify incoming reading b →
      packetDstPort incoming.data ∈ P.observers) :
    phase'.unnotified = some incoming ∨
      (∃ entry message, event = .delivered n entry message ∧ entry.incoming = incoming) ∨
        ∃ entry ∈ held n, entry.incoming = incoming := by
  cases h with
  | unbuffered other _ =>
    cases hbefore
    exact absurd rfl haccepted
  | dropped other b _ =>
    cases hbefore
    exact absurd rfl haccepted
  | accepted other b => exact Or.inl hbefore
  | ended other reading b hnot =>
    cases hbefore
    exact absurd hpropagated hnot
  | kept other reading b _ => exact Or.inl hbefore
  | copied other reading b c => exact Or.inl hbefore
  | stamped other reading b c q => exact Or.inl hbefore
  | transmitted other reading b c q bytes => exact Or.inl hbefore
  | released other reading b c => exact Or.inl hbefore
  | delivered other reading b =>
    cases hbefore
    refine Or.inr (Or.inl ⟨⟨b, incoming, reading⟩, messageOf incoming.data maxSize, ?_, rfl⟩)
    have hdata : (messageOf incoming.data maxSize).data ≠ [] :=
      messageOf_data_ne_nil hloads (Nat.succ_pos 1399)
    rw [delivery, if_neg hdata]
  | queued other reading b =>
    cases hbefore
    refine Or.inr (Or.inr ⟨⟨b, incoming, reading⟩, ?_, rfl⟩)
    rw [Function.update_self]
    exact List.mem_append_right _ List.mem_cons_self
  | unobserved other reading b hunobserved =>
    cases hbefore
    exact absurd (hport reading b rfl) hunobserved
  | discarded b => cases hbefore
  | freed b => cases hbefore

/-- Assumes: a wanted frame that reaches `notify` is for a port the `Communicator` listens to. -/
theorem Process.NotifiesAll.step [DecidableEq τ] {wanted : List UInt8 → Prop}
    (h : P.NotifiesAll wanted events)
    (hledger : P.Ledger handed events) (hsound : P.Sound mac arrived constructed)
    {action : ProcessAction τ} {event : Event}
    (hport : ∀ n gps incoming reading b, action = .receive n gps →
      P.receiver n = .notify incoming reading b → wanted incoming.data →
        packetDstPort incoming.data ∈ P.observers)
    (hstep : P.step action = some (P', event)) : P'.NotifiesAll wanted (events ++ [event]) := by
  intro m incoming reading hin hwanted hpropagated hloads
  cases haction : action.receives with
  | false =>
    obtain ⟨hreceiver, hcalm⟩ := Process.calm_step haction hstep
    rcases List.mem_append.mp hin with hold | hnew
    · rw [hreceiver]
      refine (h m incoming reading hold hwanted hpropagated hloads).imp_right fun hobtained ↦ ?_
      by_cases hreceive : ∃ n j capacity, action = .receiveMessage n j capacity
      · obtain ⟨n, j, capacity, rfl⟩ := hreceive
        exact hobtained.receiveMessage hstep
      · push Not at hreceive
        have hheld := Process.held_calm haction hreceive hstep
        exact hobtained.mono (fun held hold ↦ by rwa [hheld]) event
    · exact absurd (List.mem_singleton.mp hnew).symm (hcalm.accepts m incoming reading)
  | true =>
    cases action with
    | arrive n other =>
      obtain ⟨later, hlater, heq⟩ := Option.map_eq_some_iff.mp hstep
      cases heq
      unfold Process.arrive at hlater
      split at hlater
      case h_2 => cases hlater
      case h_1 hidle =>
      split_ifs at hlater
      cases hlater
      rcases List.mem_append.mp hin with hold | hnew
      · rcases h m incoming reading hold hwanted hpropagated hloads with hahead | hobtained
        · by_cases hm : m = n
          · subst hm
            rw [hidle] at hahead
            cases hahead
          · rw [Process.setReceiver_receiver_of_ne _ _ hm]
            exact Or.inl hahead
        · exact Or.inr (hobtained.mono (fun _ hold ↦ hold) _)
      · cases List.mem_singleton.mp hnew
    | receive n gps =>
      have hreceived := Process.receiverStep_receive hstep
      have hmoves := hsound.moves hstep
      rcases List.mem_append.mp hin with hold | hnew
      · rcases h m incoming reading hold hwanted hpropagated hloads with hahead | hobtained
        · by_cases hm : m = n
          · subst hm
            have haccepted : P.receiver m ≠ .handler incoming := fun hphase ↦
              hledger.fresh m incoming reading hphase hold
            rcases hmoves.notifies hahead haccepted hpropagated hloads
              (fun under b hphase ↦ hport m gps incoming under b rfl hphase hwanted) with
            hafter | hgot
            · exact Or.inl hafter
            · refine Or.inr ?_
              rcases hgot with ⟨entry, message, rfl, hsame⟩ | ⟨entry, hentry, hsame⟩
              · exact Or.inl ⟨entry, message, List.mem_append_right _ List.mem_cons_self, hsame⟩
              · exact Or.inr (Or.inl ⟨entry, hentry, hsame⟩)
          · rw [hreceived.receiver m hm]
            exact Or.inl hahead
        · exact Or.inr (hobtained.mono (hmoves.held_mono m) event)
      · -- a frame that is accepted goes on to `notify`
        have hevent := (List.mem_singleton.mp hnew).symm
        obtain ⟨rfl, hphase⟩ := hmoves.accepts hevent
        rw [hphase, hevent] at hmoves
        generalize P'.held = held' at hmoves
        generalize P'.receiver m = phase' at hmoves ⊢
        cases hmoves with
        | accepted _ b => exact Or.inl rfl
    | forwardFails =>
      obtain ⟨later, hlater, heq⟩ := Option.map_eq_some_iff.mp hstep
      cases heq
      obtain ⟨other, under, b, copy, quadrant, hphase, rfl⟩ := Process.forwardFails_cases hlater
      rcases List.mem_append.mp hin with hold | hnew
      · rcases h m incoming reading hold hwanted hpropagated hloads with hahead | hobtained
        · refine Or.inl ?_
          cases m with
          | shm =>
            rw [hphase] at hahead
            rw [Process.setReceiver_receiver_self]
            exact hahead
          | raw =>
            rw [Process.setReceiver_receiver_of_ne _ _ (by decide)]
            exact hahead
        · exact Or.inr (hobtained.mono (fun _ hold ↦ hold) _)
      · cases List.mem_singleton.mp hnew
    | _ => cases haction

end VehicleComm.Channel
