import VehicleComm.Traffic.Messages

/-!
# What the processes of a fleet say

A guard on the sends of a fleet says of the packets that are about something what a process may say
(`Utters`). Whatever way a packet about it came to a process, it goes back to a send that the guard
allowed, of a process of the vehicle that the route names (`Fleet.Spoken.gets`).

The guard is on the calls of `send` of the library, where an application hands over its data; what
the gateways copy from one medium to the other is not asked about, as it goes back to such a call
(`Fleet.Conveys`). A gateway may send anything to the network as a packet of the time
synchronisation, since no process hands that on.
-/

set_option autoImplicit false
set_option relaxedAutoImplicit false

namespace VehicleComm.Traffic

open Library Network Channel SharedMemory

variable {V : Type*} {m : ℕ} {τ : Type*} {mac : V → Address} {F F' : Fleet V m τ}
  {about : List UInt8 → Bool} {Said : V → Fin (m + 1) → List UInt8 → Prop}

/-! ### The packets that are sent -/

/-- What the process sends about it is what it says, or a packet of the time synchronisation. -/
def Speaks (about : List UInt8 → Bool) (Said : V → Fin (m + 1) → List UInt8 → Prop) (v : V)
    (p : Fin (m + 1)) (request : SendRequest) : Prop :=
  about request.data = true →
    (p = gatewaySlot ∧ request.kind ≠ .data ∧ request.dst.paddr ≠ .internal) ∨
      Said v p request.data

instance (about : List UInt8 → Bool) (Said : V → Fin (m + 1) → List UInt8 → Prop)
    [∀ v p data, Decidable (Said v p data)] (v : V) (p : Fin (m + 1)) (request : SendRequest) :
    Decidable (Speaks about Said v p request) :=
  inferInstanceAs (Decidable (_ → _))

/-- Guard of a run in which all processes do. -/
def Utters (about : List UInt8 → Bool) (Said : V → Fin (m + 1) → List UInt8 → Prop)
    (_ : Fleet V m τ) : FleetAction V m τ → Prop
  | .act v p (.callSend _ request) => Speaks about Said v p request
  | _ => True

instance (about : List UInt8 → Bool) (Said : V → Fin (m + 1) → List UInt8 → Prop)
    [∀ v p data, Decidable (Said v p data)] (F : Fleet V m τ) (action : FleetAction V m τ) :
    Decidable (Utters about Said F action) :=
  match action with
  | .act v p (.callSend _ request) => inferInstanceAs (Decidable (Speaks about Said v p request))
  | .act _ _ .construct | .act _ _ (.attach _) | .act _ _ (.detach _) | .act _ _ (.watch _)
  | .act _ _ (.unwatch _) | .act _ _ (.send _ _) | .act _ _ (.sendFails _) | .act _ _ (.arrive _ _)
  | .act _ _ (.receive _ _) | .act _ _ .forwardFails | .act _ _ (.receiveMessage _ _ _)
  | .read _ _ _ | .hear _ _ => isTrue trivial

section Sending

variable [DecidableEq τ] {P P' : Process τ} {event : Event} {t t' : τ} {n : Medium}
  {request : SendRequest} {found : UInt8} {send : SendPhase}

/-- A call of `send` leaves the threads with what they are sending, and gives its own the request it
was called with. -/
theorem sending_of_callSend {asked : SendRequest} (hstep : P.callSend t' asked = some P')
    (hsending : P'.app t = .sending n request found send) :
    P.app t = .sending n request found send ∨ t = t' ∧ request = asked := by
  unfold Process.callSend at hstep
  split at hstep
  · split_ifs at hstep
    split at hstep
    · cases hstep
      exact Or.inl hsending
    · cases hstep
      by_cases ht : t = t'
      · subst ht
        simp only [Function.update_self, AppPhase.sending.injEq] at hsending
        exact Or.inr ⟨rfl, hsending.2.1.symm⟩
      · simp only [Function.update_of_ne ht] at hsending
        exact Or.inl hsending
  · cases hstep

/-- In `NIC::send` a thread goes on with what it was sending. -/
theorem sending_of_send {gps : UInt8} (hstep : P.send t' gps = some (P', event))
    (hsending : P'.app t = .sending n request found send) :
    ∃ before, P.app t = .sending n request found before := by
  unfold Process.send at hstep
  split at hstep
  case h_1 => cases hstep
  case h_2 k asked had phase hphase =>
    obtain ⟨rfl, -⟩ := Prod.mk.inj (Option.some.inj hstep)
    by_cases ht : t = t'
    · subst ht
      simp only [Function.update_self] at hsending
      cases hnext : ((P.nic k).sendStep (currentQuadrant k gps) phase).2 with
      | none =>
        rw [hnext] at hsending
        cases hsending
      | some next =>
        rw [hnext] at hsending
        cases hsending
        exact ⟨phase, hphase⟩
    · simp only [Function.update_of_ne ht] at hsending
      exact ⟨send, hsending⟩

/-- So it does when `sendto` refuses the frame. -/
theorem sending_of_sendFails (hstep : P.sendFails t' = some P')
    (hsending : P'.app t = .sending n request found send) :
    ∃ before, P.app t = .sending n request found before := by
  obtain ⟨asked, had, b, reading, hphase, rfl⟩ := Process.sendFails_cases hstep
  by_cases ht : t = t'
  · subst ht
    simp only [Function.update_self, AppPhase.sending.injEq] at hsending
    obtain ⟨rfl, rfl, rfl, -⟩ := hsending
    exact ⟨.transmit b reading, hphase⟩
  · simp only [Function.update_of_ne ht] at hsending
    exact ⟨send, hsending⟩

/-- What a thread is sending it was asked for, in this step or before. -/
theorem sending_of_step {action : ProcessAction τ} (hstep : P.step action = some (P', event))
    (hsending : P'.app t = .sending n request found send) :
    (∃ before, P.app t = .sending n request found before) ∨ action = .callSend t request := by
  have hsame : P'.app = P.app →
      (∃ before, P.app t = .sending n request found before) ∨ action = .callSend t request :=
    fun happ ↦ Or.inl ⟨send, by rw [← happ, hsending]⟩
  cases action with
  | construct => exact hsame (Process.sameThreads_step rfl hstep).1.app
  | attach port => exact hsame (Process.sameThreads_step rfl hstep).1.app
  | detach port => exact hsame (Process.sameThreads_step rfl hstep).1.app
  | watch port => exact hsame (Process.sameThreads_step rfl hstep).1.app
  | unwatch port => exact hsame (Process.sameThreads_step rfl hstep).1.app
  | callSend t' asked =>
    obtain ⟨later, hlater, heq⟩ := Option.map_eq_some_iff.mp hstep
    cases heq
    rcases sending_of_callSend hlater hsending with hwas | ⟨rfl, rfl⟩
    · exact Or.inl ⟨send, hwas⟩
    · exact Or.inr rfl
  | send t' gps => exact Or.inl (sending_of_send hstep hsending)
  | sendFails t' =>
    obtain ⟨later, hlater, heq⟩ := Option.map_eq_some_iff.mp hstep
    cases heq
    exact Or.inl (sending_of_sendFails hlater hsending)
  | forwardFails =>
    obtain ⟨later, hlater, heq⟩ := Option.map_eq_some_iff.mp hstep
    cases heq
    obtain ⟨incoming, under, b, copy, reading, -, rfl⟩ := Process.forwardFails_cases hlater
    exact hsame rfl
  | arrive k incoming =>
    obtain ⟨later, hlater, heq⟩ := Option.map_eq_some_iff.mp hstep
    cases heq
    unfold Process.arrive at hlater
    split at hlater
    · split_ifs at hlater
      cases hlater
      exact hsame rfl
    · cases hlater
  | receive k gps => exact hsame (Process.receiverStep_receive hstep).app
  | receiveMessage k j capacity =>
    have hreceived : P.receiveMessage k j capacity = some (P', event) := hstep
    unfold Process.receiveMessage at hreceived
    split at hreceived
    case h_1 => cases hreceived
    case h_2 held hentry =>
      split_ifs at hreceived
      obtain ⟨rfl, -⟩ := Prod.mk.inj (Option.some.inj hreceived)
      rcases P.freeBuffer_cases k held.b with hfreed | hlost
      · rw [hfreed] at hsending
        exact Or.inl ⟨send, hsending⟩
      · rw [hlost] at hsending
        exact Or.inl ⟨send, hsending⟩

end Sending

/-! ### Every frame was spoken -/

/-- What the threads are sending, and all frames that were sent and not forwarded, are what the
processes were asked for. -/
structure Fleet.Spoken (about : List UInt8 → Bool) (Said : V → Fin (m + 1) → List UInt8 → Prop)
    (F : Fleet V m τ) : Prop where
  app : ∀ v p t n request found send, (F.process v p).app t = .sending n request found send →
    Speaks about Said v p request
  ring : ∀ v, ∀ entry ∈ F.ring v, ∀ request found, entry.cause = .sent request found →
    Speaks about Said v entry.writer request
  segment : ∀ entry ∈ F.segment, ∀ request found, entry.cause = .sent request found →
    ∃ p, Speaks about Said entry.vehicle p request

theorem Fleet.spoken_create (about : List UInt8 → Bool)
    (Said : V → Fin (m + 1) → List UInt8 → Prop) (mac : V → Address)
    (buffers : V → Fin (m + 1) → Medium → Fin bufferSize → Buffer) :
    (Fleet.create mac buffers : Fleet V m τ).Spoken about Said where
  app := fun _ _ _ _ _ _ _ h ↦ by cases h
  ring := fun _ _ h ↦ absurd h List.not_mem_nil
  segment := fun _ h ↦ absurd h List.not_mem_nil

/-- A call of `send` is one of the fleet. -/
theorem Fleet.translate_callSend {action : FleetAction V m τ} {v : V} {p : Fin (m + 1)} {t : τ}
    {request : SendRequest} (htranslate : F.translate action = some (v, p, .callSend t request)) :
    action = .act v p (.callSend t request) := by
  cases action with
  | act w q own =>
    cases own <;> simp_all [Fleet.translate]
  | read w q seq =>
    obtain ⟨entry, -, hread⟩ := Option.bind_eq_some_iff.mp htranslate
    split_ifs at hread
    cases Option.some.inj hread
  | hear w i =>
    obtain ⟨entry, -, hread⟩ := Option.bind_eq_some_iff.mp htranslate
    split_ifs at hread
    cases Option.some.inj hread

theorem Fleet.Spoken.step [DecidableEq V] [DecidableEq τ] (h : F.Spoken about Said)
    {action : FleetAction V m τ} (hguard : Utters about Said F action)
    (hstep : F.step action = some F') : F'.Spoken about Said := by
  obtain ⟨v, p, processAction, next, htranslate, hnext, rfl⟩ := Fleet.step_cases hstep
  have hsent : ∀ n bytes reading request found,
      next.2 = .transmitted n bytes reading (.sent request found) →
        Speaks about Said v p request := by
    intro n bytes reading request found hshown
    have hown : (F.process v p).step processAction =
        some (next.1, .transmitted n bytes reading (.sent request found)) := by
      rw [hnext, ← hshown]
    rcases Process.transmitted_cases hown with ⟨t, asked, had, b, hphase, hcause⟩ |
      ⟨incoming, under, b, c, hphase, hcause⟩
    · cases hcause
      exact h.app v p t n request found _ hphase
    · cases hcause
  constructor
  · refine F.record_forall (Q := fun w q P _ _ ↦ ∀ t n request found send,
      P.app t = .sending n request found send → Speaks about Said w q request)
      (fun w q ↦ h.app w q) fun t n request found send hsending ↦ ?_
    rcases sending_of_step hnext hsending with ⟨before, hbefore⟩ | rfl
    · exact h.app v p t n request found before hbefore
    · rw [Fleet.translate_callSend htranslate] at hguard
      exact hguard
  · intro w entry hentry request found hcause
    rcases Fleet.mem_ring_record hentry with hold | ⟨rfl, hnew⟩
    · exact h.ring w entry hold request found hcause
    · obtain ⟨bytes, hshown, rfl, -, -⟩ := mem_ringEntries hnew
      rw [hcause] at hshown
      exact hsent _ _ _ _ _ hshown
  · intro entry hentry request found hcause
    rcases List.mem_append.mp hentry with hold | hnew
    · exact h.segment entry hold request found hcause
    · obtain ⟨hshown, rfl⟩ := mem_segmentEntries hnew
      rw [hcause] at hshown
      exact ⟨p, hsent _ _ _ _ _ hshown⟩

/-! ### What a process gets was spoken -/

/-- The vehicle whose process sent a packet that came a route to vehicle `v`. -/
def Route.sender (v : V) : Route V → V
  | .ring _ => v
  | .segment w _ => w

/-- What is sent about it a process of vehicle `w` says. -/
def Voiced (about : List UInt8 → Bool) (Said : V → Fin (m + 1) → List UInt8 → Prop) (w : V)
    (request : SendRequest) : Prop :=
  about request.data = true → ∃ q, Said w q request.data

section Voiced

variable {constructed : Prop} {v : V}

/-- In a ring: a gateway sends nothing of its own there to the network. -/
theorem Fleet.Spoken.ring_voiced (h : F.Spoken about Said) (hsound : F.Sound mac constructed)
    {entry : RingEntry m} (hentry : entry ∈ F.ring v) {request : SendRequest} {found : UInt8}
    (hcause : entry.cause = .sent request found) : Voiced about Said v request := by
  intro habout
  rcases h.ring v entry hentry request found hcause habout with ⟨hp, -, hdst⟩ | hsaid
  · have hshown := (hsound.ring v entry hentry).shown
    rw [hcause] at hshown
    obtain ⟨-, houtgoing, -⟩ := hshown
    exact absurd (houtgoing.ring rfl (decide_eq_true hp)) hdst
  · exact ⟨entry.writer, hsaid⟩

/-- On the segment: a packet of the time synchronisation is not handed on. -/
theorem Fleet.Spoken.segment_voiced (h : F.Spoken about Said) (hsound : F.Sound mac constructed)
    (hmac : ∀ w, mac w ≠ .internal) (v : V) {i : ℕ} {entry : SegmentEntry V}
    (hentry : F.segment[i]? = some entry) (hpropagated : Propagated .raw entry.bytes) :
    ∃ request, F.Conveys v .raw i request (.segment entry.vehicle entry.reading) ∧
      Voiced about Said entry.vehicle request := by
  have hin := List.mem_of_getElem? hentry
  cases hcause : entry.cause with
  | sent request found =>
    refine ⟨request, .aired hentry hcause, fun habout ↦ ?_⟩
    obtain ⟨p, hspeaks⟩ := h.segment entry hin request found hcause
    rcases hspeaks habout with ⟨-, hkind, -⟩ | hsaid
    · have hshown := hsound.segment entry hin
      unfold SegmentEntry.Sound at hshown
      rw [hcause] at hshown
      have hcode := packetKind_of_slice hshown.2.1.packet.kind
      have hnot := hpropagated.kind rfl
      rw [isSptp, hcode] at hnot
      cases hsptp : request.kind with
      | data => exact absurd hsptp hkind
      | sptpSync => simp [hsptp] at hnot
      | sptpRequestSync => simp [hsptp] at hnot
    · exact ⟨p, hsaid⟩
  | forwarded seq under =>
    obtain ⟨origin, request, found, horigin, hsent, -⟩ := hsound.relayed_origin hmac hin hcause
    exact ⟨request, .relayed hentry hcause horigin hsent,
      h.ring_voiced hsound (List.mem_of_getElem? horigin) hsent⟩

/-- A message goes back to a send, and what that says about it a process of the vehicle says that
the route names. -/
theorem Fleet.Spoken.gets (h : F.Spoken about Said) (hsound : F.Sound mac constructed)
    (hmac : ∀ w, mac w ≠ .internal) {p : Fin (m + 1)} {n : Medium} {held : Held} {capacity : ℕ}
    {message : Message} (hgets : F.Gets v p n held capacity message) :
    ∃ request route, F.Conveys v n held.incoming.source request route ∧
      Voiced about Said (route.sender v) request := by
  obtain ⟨haccepted, hpropagated, -⟩ := hsound.gets hgets
  cases n with
  | shm =>
    obtain ⟨entry, hentry, -⟩ := haccepted.1
    cases hcause : entry.cause with
    | sent request found =>
      exact ⟨request, .ring found, .sent hentry hcause,
        h.ring_voiced hsound (List.mem_of_getElem? hentry) hcause⟩
    | forwarded i under =>
      obtain ⟨heard, hheard, -, hwhole, -⟩ := hsound.injected_bytes hentry hcause
      obtain ⟨request, hconveys, hvoiced⟩ := h.segment_voiced hsound hmac v hheard hwhole
      exact ⟨request, _, .injected hentry hcause hconveys, hvoiced⟩
  | raw =>
    obtain ⟨-, entry, hentry, hdata⟩ := haccepted.1
    rw [hdata] at hpropagated
    obtain ⟨request, hconveys, hvoiced⟩ := h.segment_voiced hsound hmac v hentry hpropagated
    exact ⟨request, _, hconveys, hvoiced⟩

end Voiced

/-! ### A packet that crosses -/

/-- The sender of the first vehicle sends some data, and an observer in the other vehicle gets the
message. -/
def overheardActions (data : List UInt8) : List (FleetAction Bool 2 Unit) :=
  setUpActions false ++ setUpActions true ++
    [FleetAction.act true listener (.watch 0xFFFF),
      FleetAction.act false sender (.callSend () { greeting with data := data })] ++
    List.replicate 3 (FleetAction.act false sender (.send () 0)) ++ crossActions false 0 0 ++
    FleetAction.read true listener 0 ::
      List.replicate 3 (FleetAction.act true listener (.receive .shm 0))

end VehicleComm.Traffic
