import VehicleComm.Channel.BufferSteps
import VehicleComm.Library.GuardedRun

/-!
# The buffer pools of a process

What the claims on buffers (`Process.Sound`) give for whole runs of a process. In a run that handles
frames only once the constructor has returned every buffer is at every moment in exactly one place,
none is lost, and every thread that has a buffer goes on until it has none (`buffers_owned`).

A component that leaves the messages to an observer needs more for its pool to be whole whenever it
rests: a frame for a port without an observer of messages stays in the queue of the `Communicator`,
which nobody empties, and a buffer that is freed before the constructor has set `_instance` is lost.
In a run without either of them the pool is whole (`pool_whole`); the first is what the frames do
that come before the `SmartData` is there (`pool_not_whole`).
-/

set_option autoImplicit false
set_option relaxedAutoImplicit false

namespace VehicleComm.Channel

open Library Network

variable {τ : Type*} {P P' : Process τ}

/-- The step function of a process without what the step shows. -/
def Process.move [DecidableEq τ] (P : Process τ) (action : ProcessAction τ) :
    Option (Process τ) :=
  (P.step action).map Prod.fst

/-- A process whose constructor has just attached to `_shm_nic` has its buffers in order. -/
theorem Process.sound_create (gateway : Bool) (mac : Address)
    (buffers : Medium → Fin bufferSize → Buffer) (arrived : Medium → Incoming → Prop)
    (constructed : Prop) :
    (Process.create gateway mac buffers : Process τ).Sound mac arrived constructed where
  governed := by
    have hfree : ∀ n, (Process.create gateway mac buffers : Process τ).holdings (.freeList n) =
        (List.finRange bufferSize).reverse.map (n, ·) := by
      intro n
      cases n <;> rfl
    have hempty : ∀ place : Place τ, (∀ n, place ≠ .freeList n) →
        (Process.create gateway mac buffers : Process τ).holdings place = [] := by
      intro place hplace
      cases place with
      | freeList n => exact absurd rfl (hplace n)
      | receiver n => rfl
      | forwarder n => rfl
      | app t => rfl
      | queue n => rfl
      | lost n => rfl
    have hinjective : ∀ n : Medium, Function.Injective fun b : Fin bufferSize ↦ (n, b) := by
      intro n b c heq
      exact (Prod.mk.inj heq).2
    refine ⟨⟨fun place ↦ ?_, fun i j hij x hi hj ↦ ?_⟩, fun x ↦ ?_, fun place x hx ↦ ?_⟩
    · by_cases hplace : ∀ n, place ≠ .freeList n
      · rw [hempty place hplace]
        exact List.nodup_nil
      · push Not at hplace
        obtain ⟨n, rfl⟩ := hplace
        rw [hfree]
        exact (List.nodup_reverse.mpr (List.nodup_finRange _)).map (hinjective n)
    · by_cases hi' : ∀ n, i ≠ .freeList n
      · rw [hempty i hi'] at hi
        exact absurd hi List.not_mem_nil
      · by_cases hj' : ∀ n, j ≠ .freeList n
        · rw [hempty j hj'] at hj
          exact absurd hj List.not_mem_nil
        · push Not at hi' hj'
          obtain ⟨n, rfl⟩ := hi'
          obtain ⟨m, rfl⟩ := hj'
          rw [hfree] at hi hj
          obtain ⟨b, -, rfl⟩ := List.mem_map.mp hi
          obtain ⟨c, -, heq⟩ := List.mem_map.mp hj
          exact hij (congrArg Place.freeList (Prod.mk.inj heq).1.symm)
    · refine ⟨.freeList x.1, ?_⟩
      rw [hfree]
      exact List.mem_map.mpr ⟨x.2, List.mem_reverse.mpr (List.mem_finRange _), rfl⟩
    · cases place with
      | freeList n => exact trivial
      | receiver n => exact absurd hx List.not_mem_nil
      | forwarder n => exact absurd hx List.not_mem_nil
      | app t => exact absurd hx List.not_mem_nil
      | queue n => exact absurd hx List.not_mem_nil
      | lost n => exact absurd hx List.not_mem_nil
  address n := by cases n <;> rfl
  handler _ _ hphase := by cases hphase
  ring := rfl
  socket := Or.inr rfl
  reads _ hin := by simp [Process.create] at hin
  writes _ hin := by simp [Process.create] at hin

/-! ### What a step of a receive thread leaves alone -/

/-- A step of the receive thread of NIC `n` leaves the role, the constructor, the other threads and
the observers alone. -/
structure Process.ReceiverStep (P P' : Process τ) (n : Medium) : Prop where
  gateway : P'.gateway = P.gateway
  stage : P'.stage = P.stage
  app : P'.app = P.app
  receiver : ∀ m, m ≠ n → P'.receiver m = P.receiver m
  held : ∀ m, m ≠ n → P'.held m = P.held m
  observers : P'.observers = P.observers
  watched : P'.watched = P.watched

theorem Process.receiverStep_setReceiver (P : Process τ) (n : Medium) (phase : HandlerPhase) :
    P.ReceiverStep (P.setReceiver n phase) n :=
  ⟨rfl, rfl, rfl, fun _ hm ↦ setReceiver_receiver_of_ne _ _ hm, fun _ _ ↦ rfl, rfl, rfl⟩

theorem Process.receiverStep_setNic (P : Process τ) (n m : Medium) (nic : Nic)
    (phase : HandlerPhase) : P.ReceiverStep ((P.setNic m nic).setReceiver n phase) n :=
  ⟨rfl, rfl, rfl, fun _ hm ↦ setReceiver_receiver_of_ne _ _ hm, fun _ _ ↦ rfl, rfl, rfl⟩

theorem Process.receiverStep_handle (P : Process τ) (n : Medium) (incoming : Incoming)
    (gps : UInt8) : P.ReceiverStep (P.handle n incoming gps).1 n := by
  unfold handle
  cases (P.nic n).allocBuf with
  | none => exact P.receiverStep_setReceiver n _
  | some taken =>
    dsimp only
    split_ifs
    · exact P.receiverStep_setNic n n _ _
    · exact P.receiverStep_setNic n n _ _
    · exact P.receiverStep_setNic n n _ _
    · exact P.receiverStep_setNic n n _ _

theorem Process.receiverStep_update (P : Process τ) (n : Medium) (incoming : Incoming)
    (reading : UInt8) (b : Fin bufferSize) :
    P.ReceiverStep (P.update n incoming reading b) n := by
  unfold update
  dsimp only
  split_ifs
  · exact P.receiverStep_setReceiver n _
  · exact P.receiverStep_setReceiver n _
  · cases P.forwardCopy n ((P.nic n).buffers b) with
    | none => exact P.receiverStep_setReceiver n _
    | some taken => exact P.receiverStep_setNic n n.other _ _

theorem Process.receiverStep_notify (P : Process τ) (n : Medium) (incoming : Incoming)
    (reading : UInt8) (b : Fin bufferSize) :
    P.ReceiverStep (P.notify n incoming reading b).1 n := by
  unfold notify
  split_ifs
  · exact P.receiverStep_setReceiver n _
  · exact ⟨rfl, rfl, rfl, fun _ hm ↦ setReceiver_receiver_of_ne _ _ hm,
      fun _ hm ↦ Function.update_of_ne hm .., rfl, rfl⟩
  · exact P.receiverStep_setReceiver n _

theorem Process.receiverStep_freeBuffer (P : Process τ) (n : Medium) (b : Fin bufferSize) :
    P.ReceiverStep ((P.freeBuffer n b).setReceiver n .idle) n := by
  rcases P.freeBuffer_cases n b with hfreed | hlost
  · rw [hfreed]
    exact P.receiverStep_setNic n n _ _
  · rw [hlost]
    exact ⟨rfl, rfl, rfl, fun _ hm ↦ setReceiver_receiver_of_ne _ _ hm, fun _ _ ↦ rfl, rfl, rfl⟩

theorem Process.receiverStep_receive {n : Medium} {gps : UInt8} {event : Event}
    (hstep : P.receive n gps = some (P', event)) : P.ReceiverStep P' n := by
  unfold receive at hstep
  split at hstep
  case h_1 => cases hstep
  case h_2 incoming _ =>
    obtain ⟨rfl, -⟩ := Prod.mk.inj (Option.some.inj hstep)
    exact P.receiverStep_handle n incoming gps
  case h_3 incoming reading b _ =>
    obtain ⟨rfl, -⟩ := Prod.mk.inj (Option.some.inj hstep)
    exact P.receiverStep_update n incoming reading b
  case h_4 incoming reading b send _ =>
    obtain ⟨rfl, -⟩ := Prod.mk.inj (Option.some.inj hstep)
    exact P.receiverStep_setNic n n.other _ _
  case h_5 incoming reading b _ =>
    obtain rfl : (P.notify n incoming reading b).1 = P' := by rw [Option.some.inj hstep]
    exact P.receiverStep_notify n incoming reading b
  case h_6 b _ =>
    obtain ⟨rfl, -⟩ := Prod.mk.inj (Option.some.inj hstep)
    exact P.receiverStep_setNic n n _ _
  case h_7 b _ =>
    obtain ⟨rfl, -⟩ := Prod.mk.inj (Option.some.inj hstep)
    exact P.receiverStep_freeBuffer n b

/-! ### What the other steps leave alone -/

/-- The action is one of the constructor or of an observer. -/
def ProcessAction.arranges : ProcessAction τ → Bool
  | .construct | .attach _ | .detach _ | .watch _ | .unwatch _ => true
  | .callSend _ _ | .send _ _ | .sendFails _ | .arrive _ _ | .receive _ _ | .forwardFails
  | .receiveMessage _ _ _ => false

/-- The two processes have the same threads, which have the same buffers. -/
structure Process.SameThreads (P P' : Process τ) : Prop where
  gateway : P'.gateway = P.gateway
  receiver : P'.receiver = P.receiver
  app : P'.app = P.app
  held : P'.held = P.held
  lost : P'.lost = P.lost

theorem Process.sameThreads_construct (hstep : P.construct = some P') : P.SameThreads P' := by
  unfold construct at hstep
  split at hstep
  case h_1 =>
    split_ifs at hstep
    · cases hstep
      exact ⟨rfl, rfl, rfl, rfl, rfl⟩
    · cases hstep
      exact ⟨rfl, rfl, rfl, rfl, rfl⟩
  case h_2 =>
    cases hstep
    exact ⟨rfl, rfl, rfl, rfl, rfl⟩
  case h_3 =>
    cases hstep
    exact ⟨rfl, rfl, rfl, rfl, rfl⟩
  case h_4 =>
    cases hstep
    exact ⟨rfl, rfl, rfl, rfl, rfl⟩
  case h_5 =>
    cases hstep
    exact ⟨rfl, rfl, rfl, rfl, rfl⟩
  case h_6 => cases hstep

/-- The constructor and the observers leave the threads alone. -/
theorem Process.sameThreads_step [DecidableEq τ] {action : ProcessAction τ} {event : Event}
    (harranges : action.arranges = true) (hstep : P.step action = some (P', event)) :
    P.SameThreads P' ∧ (action ≠ .construct → P'.stage = P.stage) := by
  cases action with
  | construct =>
    obtain ⟨later, hlater, heq⟩ := Option.map_eq_some_iff.mp hstep
    cases heq
    exact ⟨sameThreads_construct hlater, fun hne ↦ absurd rfl hne⟩
  | attach port =>
    obtain ⟨later, hlater, heq⟩ := Option.map_eq_some_iff.mp hstep
    cases heq
    unfold attach at hlater
    split_ifs at hlater
    cases hlater
    exact ⟨⟨rfl, rfl, rfl, rfl, rfl⟩, fun _ ↦ rfl⟩
  | detach port =>
    obtain ⟨rfl, -⟩ := Prod.mk.inj (Option.some.inj hstep)
    exact ⟨⟨rfl, rfl, rfl, rfl, rfl⟩, fun _ ↦ rfl⟩
  | watch port =>
    obtain ⟨rfl, -⟩ := Prod.mk.inj (Option.some.inj hstep)
    exact ⟨⟨rfl, rfl, rfl, rfl, rfl⟩, fun _ ↦ rfl⟩
  | unwatch port =>
    obtain ⟨rfl, -⟩ := Prod.mk.inj (Option.some.inj hstep)
    exact ⟨⟨rfl, rfl, rfl, rfl, rfl⟩, fun _ ↦ rfl⟩
  | callSend t request => cases harranges
  | send t gps => cases harranges
  | sendFails t => cases harranges
  | arrive n incoming => cases harranges
  | receive n gps => cases harranges
  | forwardFails => cases harranges
  | receiveMessage n j capacity => cases harranges

/-- The two processes have the same role, and the same buffers in the queue and lost. -/
structure Process.SameQueues (P P' : Process τ) : Prop where
  gateway : P'.gateway = P.gateway
  stage : P'.stage = P.stage
  held : P'.held = P.held
  lost : P'.lost = P.lost

theorem Process.sameQueues_callSend [DecidableEq τ] {t : τ} {request : SendRequest}
    (hstep : P.callSend t request = some P') : P.SameQueues P' := by
  unfold callSend at hstep
  split at hstep
  · split_ifs at hstep
    split at hstep
    · cases hstep
      exact ⟨rfl, rfl, rfl, rfl⟩
    · cases hstep
      exact ⟨rfl, rfl, rfl, rfl⟩
  · cases hstep

theorem Process.sameQueues_send [DecidableEq τ] {t : τ} {gps : UInt8} {event : Event}
    (hstep : P.send t gps = some (P', event)) : P.SameQueues P' := by
  unfold send at hstep
  split at hstep
  · cases hstep
  · obtain ⟨rfl, -⟩ := Prod.mk.inj (Option.some.inj hstep)
    exact ⟨rfl, rfl, rfl, rfl⟩

theorem Process.sameQueues_arrive {n : Medium} {incoming : Incoming}
    (hstep : P.arrive n incoming = some P') : P.SameQueues P' := by
  unfold arrive at hstep
  split at hstep
  · split_ifs at hstep
    cases hstep
    exact ⟨rfl, rfl, rfl, rfl⟩
  · cases hstep

/-- Only the constructor moves the constructor, and nothing changes the role of a process. -/
theorem Process.role_step [DecidableEq τ] {action : ProcessAction τ} {event : Event}
    (hstep : P.step action = some (P', event)) :
    P'.gateway = P.gateway ∧ (action ≠ .construct → P'.stage = P.stage) := by
  cases action with
  | construct =>
    obtain ⟨hsame, hstage⟩ := sameThreads_step rfl hstep
    exact ⟨hsame.gateway, hstage⟩
  | attach port =>
    obtain ⟨hsame, hstage⟩ := sameThreads_step rfl hstep
    exact ⟨hsame.gateway, hstage⟩
  | detach port =>
    obtain ⟨hsame, hstage⟩ := sameThreads_step rfl hstep
    exact ⟨hsame.gateway, hstage⟩
  | watch port =>
    obtain ⟨hsame, hstage⟩ := sameThreads_step rfl hstep
    exact ⟨hsame.gateway, hstage⟩
  | unwatch port =>
    obtain ⟨hsame, hstage⟩ := sameThreads_step rfl hstep
    exact ⟨hsame.gateway, hstage⟩
  | callSend t request =>
    obtain ⟨later, hlater, heq⟩ := Option.map_eq_some_iff.mp hstep
    cases heq
    exact ⟨(sameQueues_callSend hlater).gateway, fun _ ↦ (sameQueues_callSend hlater).stage⟩
  | send t gps => exact ⟨(sameQueues_send hstep).gateway, fun _ ↦ (sameQueues_send hstep).stage⟩
  | sendFails t =>
    obtain ⟨later, hlater, heq⟩ := Option.map_eq_some_iff.mp hstep
    cases heq
    obtain ⟨request, found, b, reading, -, rfl⟩ := sendFails_cases hlater
    exact ⟨rfl, fun _ ↦ rfl⟩
  | arrive n incoming =>
    obtain ⟨later, hlater, heq⟩ := Option.map_eq_some_iff.mp hstep
    cases heq
    exact ⟨(sameQueues_arrive hlater).gateway, fun _ ↦ (sameQueues_arrive hlater).stage⟩
  | receive n gps =>
    have hreceived := receiverStep_receive hstep
    exact ⟨hreceived.gateway, fun _ ↦ hreceived.stage⟩
  | forwardFails =>
    obtain ⟨later, hlater, heq⟩ := Option.map_eq_some_iff.mp hstep
    cases heq
    obtain ⟨incoming, under, b, copy, reading, -, rfl⟩ := forwardFails_cases hlater
    exact ⟨rfl, fun _ ↦ rfl⟩
  | receiveMessage n j capacity =>
    have hreceived : P.receiveMessage n j capacity = some (P', event) := hstep
    unfold receiveMessage at hreceived
    split at hreceived
    · cases hreceived
    · split_ifs at hreceived
      obtain ⟨rfl, -⟩ := Prod.mk.inj (Option.some.inj hreceived)
      rename_i held _ _
      rcases P.freeBuffer_cases n held.b with hfreed | hlost
      · rw [hfreed]
        exact ⟨rfl, fun _ ↦ rfl⟩
      · rw [hlost]
        exact ⟨rfl, fun _ ↦ rfl⟩

/-! ### The frames that a process sends -/

theorem Process.handle_event (P : Process τ) (n : Medium) (incoming : Incoming) (gps : UInt8) :
    (P.handle n incoming gps).2 = .quiet ∨
      (P.handle n incoming gps).2 = .accepted n incoming gps := by
  unfold handle
  cases (P.nic n).allocBuf with
  | none => exact Or.inl rfl
  | some taken =>
    dsimp only
    split_ifs
    · exact Or.inl rfl
    · exact Or.inl rfl
    · exact Or.inr rfl
    · exact Or.inl rfl

theorem Process.notify_event (P : Process τ) (n : Medium) (incoming : Incoming) (reading : UInt8)
    (b : Fin bufferSize) :
    (P.notify n incoming reading b).2 = .quiet ∨
      (P.notify n incoming reading b).2 =
        delivery n ⟨b, incoming, reading⟩ (unpack ((P.nic n).buffers b) maxSize) := by
  unfold notify
  split_ifs
  · exact Or.inr rfl
  · exact Or.inl rfl
  · exact Or.inl rfl

theorem delivery_ne_transmitted (k : Medium) (held : Held) (message : Option Message) (n : Medium)
    (bytes : List UInt8) (reading : UInt8) (cause : Cause) :
    delivery k held message ≠ .transmitted n bytes reading cause := by
  cases message with
  | none => exact fun heq ↦ by cases heq
  | some message =>
    rw [delivery]
    split_ifs
    · exact fun heq ↦ by cases heq
    · exact fun heq ↦ by cases heq

/-- A frame is sent by a thread in `Protocol::send` or by the receive thread of the other NIC. -/
theorem Process.transmitted_cases [DecidableEq τ] {action : ProcessAction τ} {n : Medium}
    {bytes : List UInt8} {reading : UInt8} {cause : Cause}
    (hstep : P.step action = some (P', .transmitted n bytes reading cause)) :
    (∃ t request found b, P.app t = .sending n request found (.transmit b reading) ∧
      cause = .sent request found) ∨
    ∃ incoming under b c, P.receiver n.other = .forward incoming under b (.transmit c reading) ∧
      cause = .forwarded incoming.source under := by
  cases action with
  | construct => obtain ⟨later, -, heq⟩ := Option.map_eq_some_iff.mp hstep; cases heq
  | attach port => obtain ⟨later, -, heq⟩ := Option.map_eq_some_iff.mp hstep; cases heq
  | detach port => cases Option.some.inj hstep
  | watch port => cases Option.some.inj hstep
  | unwatch port => cases Option.some.inj hstep
  | callSend t request => obtain ⟨later, -, heq⟩ := Option.map_eq_some_iff.mp hstep; cases heq
  | arrive k incoming => obtain ⟨later, -, heq⟩ := Option.map_eq_some_iff.mp hstep; cases heq
  | sendFails t => obtain ⟨later, -, heq⟩ := Option.map_eq_some_iff.mp hstep; cases heq
  | forwardFails => obtain ⟨later, -, heq⟩ := Option.map_eq_some_iff.mp hstep; cases heq
  | send t gps =>
    simp only [Process.step, Process.send] at hstep
    split at hstep
    case h_1 => cases hstep
    case h_2 k request found send hphase =>
      obtain ⟨-, hevent⟩ := Prod.mk.inj (Option.some.inj hstep)
      cases send with
      | stamp b => cases hevent
      | transmit b q =>
        cases hevent
        exact Or.inl ⟨t, request, found, b, hphase, rfl⟩
      | release b => cases hevent
  | receive k gps =>
    simp only [Process.step, Process.receive] at hstep
    split at hstep
    case h_1 => cases hstep
    case h_2 incoming _ =>
      have hevent : (P.handle k incoming gps).2 = .transmitted n bytes reading cause := by
        rw [Option.some.inj hstep]
      rcases P.handle_event k incoming gps with hquiet | haccepted
      · cases hquiet.symm.trans hevent
      · cases haccepted.symm.trans hevent
    case h_4 incoming under b send hphase =>
      obtain ⟨-, hevent⟩ := Prod.mk.inj (Option.some.inj hstep)
      cases send with
      | stamp c => cases hevent
      | transmit c q =>
        cases hevent
        rw [Medium.other_other]
        exact Or.inr ⟨incoming, under, b, c, hphase, rfl⟩
      | release c => cases hevent
    case h_5 incoming under b _ =>
      have hevent : (P.notify k incoming under b).2 = .transmitted n bytes reading cause := by
        rw [Option.some.inj hstep]
      rcases P.notify_event k incoming under b with hquiet | hdelivered
      · cases hquiet.symm.trans hevent
      · exact absurd (hdelivered.symm.trans hevent) (delivery_ne_transmitted _ _ _ _ _ _ _)
    all_goals cases Option.some.inj hstep
  | receiveMessage k j capacity =>
    simp only [Process.step, Process.receiveMessage] at hstep
    split at hstep
    · cases hstep
    · split_ifs at hstep
      cases Option.some.inj hstep

/-! ### A component has no second NIC -/

/-- The process does nothing with a raw socket. -/
structure Process.Offline (P : Process τ) : Prop where
  receiver : P.receiver .raw = .idle
  forward : (P.receiver .shm).lent = []
  app : ∀ t, ∀ x ∈ (P.app t).lent, x.1 = .shm
  held : P.held .raw = []

theorem Process.offline_create (gateway : Bool) (mac : Address)
    (buffers : Medium → Fin bufferSize → Buffer) :
    (Process.create gateway mac buffers : Process τ).Offline :=
  ⟨rfl, rfl, fun _ _ hx ↦ absurd hx List.not_mem_nil, rfl⟩

/-- The receive thread of the ring of a component makes no copies. -/
theorem Process.Offline.lent_receive (h : P.Offline) (hgateway : P.gateway = false) {gps : UInt8}
    {event : Event} (hstep : P.receive .shm gps = some (P', event)) :
    (P'.receiver .shm).lent = [] := by
  unfold receive at hstep
  split at hstep
  case h_1 => cases hstep
  case h_2 incoming _ =>
    obtain ⟨rfl, -⟩ := Prod.mk.inj (Option.some.inj hstep)
    cases (P.nic .shm).allocBuf with
    | none => simp
    | some taken =>
      dsimp only
      split_ifs
      · simp [HandlerPhase.lent]
      · simp [HandlerPhase.lent]
      · simp [HandlerPhase.lent]
      · simp [HandlerPhase.lent]
  case h_3 incoming reading b _ =>
    obtain ⟨rfl, -⟩ := Prod.mk.inj (Option.some.inj hstep)
    have hnone : P.forwardCopy .shm ((P.nic .shm).buffers b) = none := by
      simp [forwardCopy, hasSocket, hgateway]
    unfold update
    dsimp only
    split_ifs
    · simp [HandlerPhase.lent]
    · simp [HandlerPhase.lent]
    · rw [hnone]
      simp [HandlerPhase.lent]
  case h_4 incoming reading b send hphase =>
    have hlent := h.forward
    rw [hphase] at hlent
    cases hlent
  case h_5 incoming reading b _ =>
    obtain rfl : (P.notify .shm incoming reading b).1 = P' := by rw [Option.some.inj hstep]
    unfold notify
    split_ifs
    · simp [HandlerPhase.lent]
    · simp
    · simp [HandlerPhase.lent]
  case h_6 b _ =>
    obtain ⟨rfl, -⟩ := Prod.mk.inj (Option.some.inj hstep)
    simp
  case h_7 b _ =>
    obtain ⟨rfl, -⟩ := Prod.mk.inj (Option.some.inj hstep)
    simp

theorem Process.Offline.of_sameThreads (h : P.Offline) (hsame : P.SameThreads P') : P'.Offline where
  receiver := by rw [hsame.receiver, h.receiver]
  forward := by rw [hsame.receiver, h.forward]
  app := by
    rw [hsame.app]
    exact h.app
  held := by rw [hsame.held, h.held]

theorem Process.Offline.callSend [DecidableEq τ] (h : P.Offline) (hgateway : P.gateway = false)
    {t : τ} {request : SendRequest} (hstep : P.callSend t request = some P') : P'.Offline := by
  have hroute : P.route request.dst.paddr = .shm := by simp [route, hasSocket, hgateway]
  unfold Process.callSend at hstep
  split at hstep
  · split_ifs at hstep
    split at hstep
    · cases hstep
      exact h
    · cases hstep
      refine ⟨h.receiver, h.forward, fun u x hx ↦ ?_, h.held⟩
      by_cases hu : u = t
      · subst hu
        simp only [Function.update_self, AppPhase.lent_sending, List.mem_singleton] at hx
        rw [hx, hroute]
      · simp only [Function.update_of_ne hu] at hx
        exact h.app u x hx
  · cases hstep

theorem Process.Offline.send [DecidableEq τ] (h : P.Offline) {t : τ} {gps : UInt8}
    {event : Event} (hstep : P.send t gps = some (P', event)) : P'.Offline := by
  unfold Process.send at hstep
  split at hstep
  · cases hstep
  · rename_i n request found phase hphase
    obtain ⟨rfl, -⟩ := Prod.mk.inj (Option.some.inj hstep)
    have hn : n = .shm := h.app t (n, phase.buffer)
      (by rw [hphase]; exact List.mem_singleton_self _)
    refine ⟨h.receiver, h.forward, fun u x hx ↦ ?_, h.held⟩
    by_cases hu : u = t
    · subst hu
      simp only [Function.update_self] at hx
      cases hnext : ((P.nic n).sendStep (currentQuadrant n gps) phase).2 with
      | none =>
        rw [hnext] at hx
        exact absurd hx List.not_mem_nil
      | some later =>
        rw [hnext] at hx
        simp only [Option.elim_some, AppPhase.lent_sending, List.mem_singleton] at hx
        rw [hx, hn]
    · simp only [Function.update_of_ne hu] at hx
      exact h.app u x hx

theorem Process.Offline.arrive (h : P.Offline) (hgateway : P.gateway = false) {n : Medium}
    {incoming : Incoming} (hstep : P.arrive n incoming = some P') : P'.Offline := by
  unfold Process.arrive at hstep
  split at hstep
  · split_ifs at hstep with hsocket
    cases hstep
    have hn : n ≠ .raw := by
      rintro rfl
      simp [socketReceives, hasSocket, hgateway] at hsocket
    refine ⟨?_, ?_, h.app, h.held⟩
    · rw [setReceiver_receiver_of_ne _ _ hn.symm]
      exact h.receiver
    · cases n with
      | shm => simp [HandlerPhase.lent]
      | raw => exact absurd rfl hn
  · cases hstep

theorem Process.Offline.receive [DecidableEq τ] (h : P.Offline) (hgateway : P.gateway = false)
    {n : Medium} {gps : UInt8} {event : Event}
    (hstep : P.step (.receive n gps) = some (P', event)) : P'.Offline := by
  have hreceived := receiverStep_receive hstep
  cases n with
  | raw =>
    have hraw : P.receive .raw gps = some (P', event) := hstep
    simp [Process.receive, h.receiver] at hraw
  | shm =>
    refine ⟨?_, h.lent_receive hgateway hstep, ?_, ?_⟩
    · rw [hreceived.receiver .raw (by decide)]
      exact h.receiver
    · rw [hreceived.app]
      exact h.app
    · rw [hreceived.held .raw (by decide)]
      exact h.held

theorem Process.Offline.receiveMessage (h : P.Offline) {n : Medium} {j capacity : ℕ}
    {event : Event} (hstep : P.receiveMessage n j capacity = some (P', event)) : P'.Offline := by
  unfold Process.receiveMessage at hstep
  split at hstep
  · cases hstep
  · rename_i held hentry
    split_ifs at hstep
    obtain ⟨rfl, -⟩ := Prod.mk.inj (Option.some.inj hstep)
    have hn : n ≠ .raw := by
      rintro rfl
      simp [h.held] at hentry
    have hheld : Function.update P.held n ((P.held n).eraseIdx j) .raw = [] := by
      rw [Function.update_of_ne hn.symm]
      exact h.held
    rcases P.freeBuffer_cases n held.b with hfreed | hlost
    · rw [hfreed]
      exact ⟨h.receiver, h.forward, h.app, hheld⟩
    · rw [hlost]
      exact ⟨h.receiver, h.forward, h.app, hheld⟩

/-- No step of a component touches a raw socket. -/
theorem Process.Offline.step [DecidableEq τ] (h : P.Offline) (hgateway : P.gateway = false)
    {action : ProcessAction τ} {event : Event} (hstep : P.step action = some (P', event)) :
    P'.Offline := by
  cases action with
  | construct => exact h.of_sameThreads (sameThreads_step rfl hstep).1
  | attach port => exact h.of_sameThreads (sameThreads_step rfl hstep).1
  | detach port => exact h.of_sameThreads (sameThreads_step rfl hstep).1
  | watch port => exact h.of_sameThreads (sameThreads_step rfl hstep).1
  | unwatch port => exact h.of_sameThreads (sameThreads_step rfl hstep).1
  | callSend t request =>
    obtain ⟨later, hlater, heq⟩ := Option.map_eq_some_iff.mp hstep
    cases heq
    exact h.callSend hgateway hlater
  | send t gps => exact Process.Offline.send h hstep
  | sendFails t =>
    obtain ⟨later, hlater, heq⟩ := Option.map_eq_some_iff.mp hstep
    cases heq
    obtain ⟨shown, hsent⟩ := send_of_sendFails hlater
    exact Process.Offline.send h hsent
  | arrive n incoming =>
    obtain ⟨later, hlater, heq⟩ := Option.map_eq_some_iff.mp hstep
    cases heq
    exact h.arrive hgateway hlater
  | receive n gps => exact h.receive hgateway hstep
  | forwardFails =>
    obtain ⟨later, hlater, heq⟩ := Option.map_eq_some_iff.mp hstep
    cases heq
    obtain ⟨shown, hsent⟩ := receive_of_forwardFails hlater
    exact h.receive hgateway hsent
  | receiveMessage n j capacity => exact Process.Offline.receiveMessage h hstep

/-- A component sends frames of its own, on the ring. -/
theorem Process.Offline.transmitted [DecidableEq τ] (h : P.Offline) {action : ProcessAction τ}
    {n : Medium} {bytes : List UInt8} {reading : UInt8} {cause : Cause}
    (hstep : P.step action = some (P', .transmitted n bytes reading cause)) :
    n = .shm ∧ ∃ request found, cause = .sent request found := by
  rcases transmitted_cases hstep with ⟨t, request, found, b, hphase, rfl⟩ |
    ⟨incoming, under, b, c, hphase, rfl⟩
  · refine ⟨h.app t (n, b) ?_, request, found, rfl⟩
    rw [hphase]
    exact List.mem_singleton_self _
  · exfalso
    cases n with
    | shm =>
      rw [show Medium.other .shm = .raw from rfl, h.receiver] at hphase
      cases hphase
    | raw =>
      have hlent := h.forward
      rw [show Medium.shm = Medium.other .raw from rfl, hphase] at hlent
      cases hlent

/-! ### What is lost -/

/-- A step loses no buffer unless it calls `free_buffer` before the constructor has returned.
Assumes: a component does nothing with a raw socket. -/
theorem Process.lost_step [DecidableEq τ] (hoffline : P.gateway = false → P.Offline)
    {action : ProcessAction τ} {event : Event}
    (hfree : ∀ n gps b, action = .receive n gps → P.receiver n = .freeBuffer b →
      P.stage = .returned) (hstep : P.step action = some (P', event)) : P'.lost = P.lost := by
  cases action with
  | construct => exact (sameThreads_step rfl hstep).1.lost
  | attach port => exact (sameThreads_step rfl hstep).1.lost
  | detach port => exact (sameThreads_step rfl hstep).1.lost
  | watch port => exact (sameThreads_step rfl hstep).1.lost
  | unwatch port => exact (sameThreads_step rfl hstep).1.lost
  | callSend t request =>
    obtain ⟨later, hlater, heq⟩ := Option.map_eq_some_iff.mp hstep
    cases heq
    exact (sameQueues_callSend hlater).lost
  | send t gps => exact (sameQueues_send hstep).lost
  | sendFails t =>
    obtain ⟨later, hlater, heq⟩ := Option.map_eq_some_iff.mp hstep
    cases heq
    obtain ⟨request, found, b, reading, -, rfl⟩ := sendFails_cases hlater
    rfl
  | forwardFails =>
    obtain ⟨later, hlater, heq⟩ := Option.map_eq_some_iff.mp hstep
    cases heq
    obtain ⟨incoming, under, b, copy, reading, -, rfl⟩ := forwardFails_cases hlater
    rfl
  | arrive n incoming =>
    obtain ⟨later, hlater, heq⟩ := Option.map_eq_some_iff.mp hstep
    cases heq
    exact (sameQueues_arrive hlater).lost
  | receive n gps =>
    have hreceived : P.receive n gps = some (P', event) := hstep
    unfold receive at hreceived
    split at hreceived
    case h_1 => cases hreceived
    case h_2 incoming _ =>
      obtain ⟨rfl, -⟩ := Prod.mk.inj (Option.some.inj hreceived)
      cases (P.nic n).allocBuf with
      | none => rfl
      | some taken =>
        dsimp only
        split_ifs
        · rfl
        · rfl
        · rfl
        · rfl
    case h_3 incoming reading b _ =>
      obtain ⟨rfl, -⟩ := Prod.mk.inj (Option.some.inj hreceived)
      unfold update
      dsimp only
      split_ifs
      · rfl
      · rfl
      · cases P.forwardCopy n ((P.nic n).buffers b) with
        | none => rfl
        | some taken => rfl
    case h_4 =>
      obtain ⟨rfl, -⟩ := Prod.mk.inj (Option.some.inj hreceived)
      rfl
    case h_5 incoming reading b _ =>
      obtain rfl : (P.notify n incoming reading b).1 = P' := by rw [Option.some.inj hreceived]
      unfold notify
      split_ifs
      · rfl
      · rfl
      · rfl
    case h_6 =>
      obtain ⟨rfl, -⟩ := Prod.mk.inj (Option.some.inj hreceived)
      rfl
    case h_7 b hphase =>
      obtain ⟨rfl, -⟩ := Prod.mk.inj (Option.some.inj hreceived)
      have hsocket : n = .raw → P.gateway = true := by
        rintro rfl
        by_contra hcomponent
        rw [(hoffline (Bool.eq_false_iff.mpr hcomponent)).receiver] at hphase
        cases hphase
      rw [freeBuffer_of_returned (hfree n gps b rfl hphase) hsocket]
      rfl
  | receiveMessage n j capacity =>
    have hreceived : P.receiveMessage n j capacity = some (P', event) := hstep
    unfold receiveMessage at hreceived
    split at hreceived
    · cases hreceived
    · rename_i held hentry
      split_ifs at hreceived with hreturned
      obtain ⟨rfl, -⟩ := Prod.mk.inj (Option.some.inj hreceived)
      have hsocket : n = .raw → P.gateway = true := by
        rintro rfl
        by_contra hcomponent
        rw [(hoffline (Bool.eq_false_iff.mpr hcomponent)).held] at hentry
        cases hentry
      rw [freeBuffer_of_returned hreturned hsocket]
      rfl

/-! ### Threads that have a buffer go on -/

/-- How many steps a thread in `Protocol::send` still takes. -/
def AppPhase.remaining : AppPhase → ℕ
  | .idle => 0
  | .sending _ _ _ send => send.remaining

/-- How many steps a receive thread still takes at most. -/
def HandlerPhase.remaining : HandlerPhase → ℕ
  | .idle => 0
  | .discard _ | .freeBuffer _ => 1
  | .notify _ _ _ => 2
  | .forward _ _ _ send => 2 + send.remaining
  | .update _ _ _ => 6
  | .handler _ => 7

theorem AppPhase.remaining_eq_zero_iff {phase : AppPhase} :
    phase.remaining = 0 ↔ phase = .idle := by
  cases phase with
  | idle => simp [remaining]
  | sending n request found send => cases send <;> simp [remaining, SendPhase.remaining]

theorem HandlerPhase.remaining_eq_zero_iff {phase : HandlerPhase} :
    phase.remaining = 0 ↔ phase = .idle := by
  cases phase <;> simp [remaining]

/-- The next step of a thread in `Protocol::send` is possible and brings it nearer to its end. -/
theorem Process.send_remaining [DecidableEq τ] (P : Process τ) {t : τ} (hbusy : P.app t ≠ .idle)
    (gps : UInt8) :
    ∃ P' event, P.send t gps = some (P', event) ∧
      (P'.app t).remaining < (P.app t).remaining := by
  unfold send
  cases hphase : P.app t with
  | idle => exact absurd hphase hbusy
  | sending n request found phase =>
    refine ⟨_, _, rfl, ?_⟩
    simp only [Function.update_self]
    cases phase with
    | stamp b => simp [Nic.sendStep, AppPhase.remaining, SendPhase.remaining]
    | transmit b q => simp [Nic.sendStep, AppPhase.remaining, SendPhase.remaining]
    | release b => simp [Nic.sendStep, AppPhase.remaining, SendPhase.remaining]

/-- The next step of a receive thread is possible and brings it nearer to its end. -/
theorem Process.receive_remaining (P : Process τ) {n : Medium} (hbusy : P.receiver n ≠ .idle)
    (gps : UInt8) :
    ∃ P' event, P.receive n gps = some (P', event) ∧
      (P'.receiver n).remaining < (P.receiver n).remaining := by
  unfold receive
  cases hphase : P.receiver n with
  | idle => exact absurd hphase hbusy
  | handler incoming =>
    refine ⟨(P.handle n incoming gps).1, (P.handle n incoming gps).2, rfl, ?_⟩
    unfold handle
    cases (P.nic n).allocBuf with
    | none => simp [HandlerPhase.remaining]
    | some taken =>
      dsimp only
      split_ifs
      · simp [HandlerPhase.remaining]
      · simp [HandlerPhase.remaining]
      · simp [HandlerPhase.remaining]
      · simp [HandlerPhase.remaining]
  | update incoming reading b =>
    refine ⟨P.update n incoming reading b, .quiet, rfl, ?_⟩
    unfold update
    dsimp only
    split_ifs
    · simp [HandlerPhase.remaining]
    · simp [HandlerPhase.remaining]
    · cases P.forwardCopy n ((P.nic n).buffers b) with
      | none => simp [HandlerPhase.remaining]
      | some taken => simp [HandlerPhase.remaining, SendPhase.remaining]
  | forward incoming reading b send =>
    refine ⟨_, _, rfl, ?_⟩
    simp only [setReceiver_receiver_self]
    cases send with
    | stamp c => simp [Nic.sendStep, HandlerPhase.remaining, SendPhase.remaining]
    | transmit c q => simp [Nic.sendStep, HandlerPhase.remaining, SendPhase.remaining]
    | release c => simp [Nic.sendStep, HandlerPhase.remaining, SendPhase.remaining]
  | notify incoming reading b =>
    refine ⟨(P.notify n incoming reading b).1, (P.notify n incoming reading b).2, rfl, ?_⟩
    unfold notify
    split_ifs
    · simp [HandlerPhase.remaining]
    · simp [HandlerPhase.remaining]
    · simp [HandlerPhase.remaining]
  | discard b => exact ⟨_, _, rfl, by simp [HandlerPhase.remaining]⟩
  | freeBuffer b => exact ⟨_, _, rfl, by simp [HandlerPhase.remaining]⟩

/-! ### Runs -/

/-- What every run keeps: the buffers are in order, and a component does nothing with a raw socket.
-/
structure Process.Ordered (mac : Address) (P : Process τ) : Prop where
  sound : P.Sound mac (fun _ _ ↦ True) False
  offline : P.gateway = false → P.Offline

theorem Process.ordered_create (gateway : Bool) (mac : Address)
    (buffers : Medium → Fin bufferSize → Buffer) :
    (Process.create gateway mac buffers : Process τ).Ordered mac :=
  ⟨sound_create gateway mac buffers _ _, fun _ ↦ offline_create gateway mac buffers⟩

theorem Process.Ordered.step [DecidableEq τ] {mac : Address} (h : P.Ordered mac)
    {action : ProcessAction τ} {event : Event} (hstep : P.step action = some (P', event)) :
    P'.Ordered mac := by
  have hrole := (role_step hstep).1
  refine ⟨h.sound.step (fun _ _ _ ↦ trivial) (fun hready _ ↦ hready.elim) hstep,
    fun hcomponent ↦ ?_⟩
  rw [hrole] at hcomponent
  exact (h.offline hcomponent).step hcomponent hstep

/-- When nobody works on a buffer and none is lost, each is free or in the queue. -/
theorem Process.Ordered.free_or_queued {mac : Address} (h : P.Ordered mac)
    (hkept : ∀ n, P.lost n = []) (hreceiver : ∀ n, P.receiver n = .idle)
    (happ : ∀ t, P.app t = .idle) (n : Medium) (b : Fin bufferSize) :
    b ∈ (P.nic n).freeList ∨ ∃ held ∈ P.held n, held.b = b := by
  obtain ⟨place, hplace⟩ := h.sound.governed.complete (n, b)
  cases place with
  | freeList m =>
    obtain ⟨c, hc, heq⟩ := List.mem_map.mp hplace
    cases heq
    exact Or.inl hc
  | queue m =>
    obtain ⟨held, hin, heq⟩ := List.mem_map.mp hplace
    cases heq
    exact Or.inr ⟨held, hin, rfl⟩
  | receiver m => simp [holdings, hreceiver] at hplace
  | forwarder m => simp [holdings, hreceiver] at hplace
  | app t => simp [holdings, happ] at hplace
  | lost m => simp [holdings, hkept] at hplace

section Ownership

/-- The constructor has returned before anything else happens. -/
def AfterConstruction (P : Process τ) : ProcessAction τ → Prop
  | .construct => True
  | _ => P.stage = .returned

/-- The buffers of the two pools are owned exclusively: each is in exactly one place, which is not
that of the lost ones, and there once; a buffer that `alloc` hands out is in no other place; a
thread that has a buffer goes on until it has none, and when nobody works on a buffer each is free
or in the queue. -/
structure Process.BuffersOwned (P : Process τ) : Prop where
  unique : ∀ n b, ∃! place, (n, b) ∈ P.holdings place
  once : ∀ place, (P.holdings place).Nodup
  kept : ∀ n, P.lost n = []
  alloc : ∀ n nic b, (P.nic n).allocBuf = some (nic, b) →
    b ∉ nic.freeList ∧ ∀ place, (n, b) ∈ P.holdings place → place = .freeList n
  receivers_end : ∀ n gps, P.receiver n ≠ .idle → ∃ P' event, P.receive n gps = some (P', event) ∧
    (P'.receiver n).remaining < (P.receiver n).remaining
  senders_end : ∀ [DecidableEq τ] (t : τ) (gps : UInt8), P.app t ≠ .idle →
    ∃ P' event, P.send t gps = some (P', event) ∧
      (P'.app t).remaining < (P.app t).remaining
  rest : (∀ n, P.receiver n = .idle) → (∀ t, P.app t = .idle) →
    ∀ n b, b ∈ (P.nic n).freeList ∨ ∃ held ∈ P.held n, held.b = b

theorem Process.Ordered.buffersOwned {mac : Address} (h : P.Ordered mac)
    (hkept : ∀ n, P.lost n = []) : P.BuffersOwned where
  unique n b := h.sound.governed.exclusive.existsUnique h.sound.governed.complete (n, b)
  once := h.sound.governed.exclusive.nodup
  kept := hkept
  alloc n nic b halloc := by
    obtain ⟨rest, hfree, rfl⟩ := Nic.allocBuf_eq_some_iff.mp halloc
    have hnodup := h.sound.governed.exclusive.nodup (.freeList n)
    rw [holdings, hfree, List.map_cons, List.nodup_cons] at hnodup
    refine ⟨fun hin ↦ hnodup.1 (List.mem_map_of_mem hin), fun place hplace ↦ ?_⟩
    have hfrom : (n, b) ∈ P.holdings (.freeList n) := by
      rw [holdings, hfree]
      exact List.mem_map_of_mem List.mem_cons_self
    by_contra hne
    exact h.sound.governed.exclusive.apart _ _ hne hplace hfrom
  receivers_end _ gps hbusy := P.receive_remaining hbusy gps
  senders_end _ gps hbusy := P.send_remaining hbusy gps
  rest hreceiver happ := h.free_or_queued hkept hreceiver happ

/-- The pools of a process, gateway or component. Assumes: a run in which nothing but construction
happens before the constructor has returned. The buffers are owned exclusively, whatever frames
arrive and whichever of them are sent, refused by the engine, forwarded, queued or dropped. -/
theorem buffers_owned [DecidableEq τ] {gateway : Bool} {mac : Address}
    {buffers : Medium → Fin bufferSize → Buffer}
    (hrun : Reaches Process.move AfterConstruction (Process.create gateway mac buffers) P) :
    P.BuffersOwned := by
  have hkeep : ∀ (s : Process τ) action t, (s.Ordered mac ∧ ∀ n, s.lost n = []) →
      AfterConstruction s action → s.move action = some t →
        t.Ordered mac ∧ ∀ n, t.lost n = [] := by
    rintro s action t ⟨hordered, hkept⟩ hguard hmove
    obtain ⟨⟨later, event⟩, hstep, rfl⟩ := Option.map_eq_some_iff.mp hmove
    refine ⟨hordered.step hstep, fun n ↦ ?_⟩
    have hlost : later.lost = s.lost := by
      refine Process.lost_step hordered.offline (fun m gps b haction _ ↦ ?_) hstep
      subst haction
      exact hguard
    rw [hlost, hkept]
  obtain ⟨hordered, hkept⟩ := hrun.invariant hkeep
    ⟨Process.ordered_create gateway mac buffers, fun _ ↦ rfl⟩
  exact hordered.buffersOwned hkept

instance (P : Process τ) (action : ProcessAction τ) : Decidable (AfterConstruction P action) :=
  match action with
  | .construct => isTrue trivial
  | .attach _ | .detach _ | .watch _ | .unwatch _ | .callSend _ _ | .send _ _ | .sendFails _
  | .arrive _ _ | .receive _ _ | .forwardFails | .receiveMessage _ _ _ =>
    inferInstanceAs (Decidable (P.stage = .returned))

/-- Buffers in which nothing was ever written. -/
def blankBuffers (_ : Medium) (_ : Fin bufferSize) : Buffer :=
  ⟨⟨List.replicate frameSize 0, List.length_replicate⟩, 0⟩

/-- A frame of a component of the vehicle to everybody, with one byte of data. -/
def broadcastFrame : Incoming where
  source := 0
  data := etherHeader .broadcast .internal proto ++
    [1, 0, 0, 0, 0, 0, 0, 0, 5, 0, 0xFF, 0xFF, 0, 0, 7, 0, 0]
  fits := Nat.le_of_ble_eq_true rfl

/-- The steps of the constructor of a gateway, of a `Communicator`, and of the receive thread of the
ring on a frame that is forwarded to the network and queued. -/
def gatewayActions : List (ProcessAction Unit) :=
  List.replicate 5 ProcessAction.construct ++
    [ProcessAction.attach 6, ProcessAction.attach 0xFFFF,
      ProcessAction.arrive .shm broadcastFrame] ++
    List.replicate 6 (ProcessAction.receive .shm 3)

theorem buffers_owned_gatewayActions :
    ∃ P : Process Unit, run Process.move AfterConstruction
        (Process.create true ⟨[2, 0, 0, 0, 0, 1], rfl⟩ blankBuffers) gatewayActions = some P ∧
      P.BuffersOwned ∧ (P.held .shm).length = 1 ∧ (P.nic .shm).freeList.length = 99 ∧
        (P.nic .raw).freeList.length = 100 := by
  have hrun : (run Process.move AfterConstruction
      (Process.create true ⟨[2, 0, 0, 0, 0, 1], rfl⟩ blankBuffers) gatewayActions).map (fun P ↦
        ((P.held .shm).length, (P.nic .shm).freeList.length, (P.nic .raw).freeList.length)) =
          some (1, 99, 100) := by decide +kernel
  obtain ⟨P, hP, hlengths⟩ := Option.map_eq_some_iff.mp hrun
  obtain ⟨hheld, hfree⟩ := Prod.mk.inj hlengths
  obtain ⟨hring, hsocket⟩ := Prod.mk.inj hfree
  exact ⟨P, hP, buffers_owned (reaches_of_run gatewayActions hP), hheld, hring, hsocket⟩

end Ownership

section Observed

/-- Nobody calls `Communicator::receive`. -/
def NobodyReceives (_ : Process τ) : ProcessAction τ → Prop
  | .receiveMessage _ _ _ => False
  | _ => True

/-- Nobody calls `Communicator::receive`, a frame for a port of the `Communicator` finds an observer
of the messages of the port, and buffers are freed only when the constructor has returned. -/
def HandedOn (P : Process τ) : ProcessAction τ → Prop
  | .receiveMessage _ _ _ => False
  | .receive n _ =>
    match P.receiver n with
    | .notify _ _ b => packetDstPort ((P.nic n).buffers b).data.bytes ∈ P.observers →
      packetDstPort ((P.nic n).buffers b).data.bytes ∈ P.watched
    | .freeBuffer _ => P.stage = .returned
    | _ => True
  | _ => True

instance (P : Process τ) (action : ProcessAction τ) : Decidable (NobodyReceives P action) :=
  match action with
  | .receiveMessage _ _ _ => isFalse id
  | .construct | .attach _ | .detach _ | .watch _ | .unwatch _ | .callSend _ _ | .send _ _
  | .sendFails _ | .arrive _ _ | .receive _ _ | .forwardFails => isTrue trivial

instance (P : Process τ) (action : ProcessAction τ) : Decidable (HandedOn P action) :=
  match action with
  | .receive n _ =>
    match hphase : P.receiver n with
    | .notify _ _ b => decidable_of_iff (packetDstPort ((P.nic n).buffers b).data.bytes ∈
        P.observers → packetDstPort ((P.nic n).buffers b).data.bytes ∈ P.watched)
          (by simp only [HandedOn, hphase])
    | .freeBuffer _ => decidable_of_iff (P.stage = .returned) (by simp only [HandedOn, hphase])
    | .idle | .handler _ | .update _ _ _ | .forward _ _ _ _ | .discard _ =>
      isTrue (by simp only [HandedOn, hphase])
  | .receiveMessage _ _ _ => isFalse id
  | .construct | .attach _ | .detach _ | .watch _ | .unwatch _ | .callSend _ _ | .send _ _
  | .sendFails _ | .arrive _ _ | .forwardFails => isTrue trivial

/-- A step that hands frames on queues none. -/
theorem Process.held_step [DecidableEq τ] {action : ProcessAction τ} {event : Event}
    (hguard : HandedOn P action) (hstep : P.step action = some (P', event)) :
    P'.held = P.held := by
  cases action with
  | construct => exact (sameThreads_step rfl hstep).1.held
  | attach port => exact (sameThreads_step rfl hstep).1.held
  | detach port => exact (sameThreads_step rfl hstep).1.held
  | watch port => exact (sameThreads_step rfl hstep).1.held
  | unwatch port => exact (sameThreads_step rfl hstep).1.held
  | callSend t request =>
    obtain ⟨later, hlater, heq⟩ := Option.map_eq_some_iff.mp hstep
    cases heq
    exact (sameQueues_callSend hlater).held
  | send t gps => exact (sameQueues_send hstep).held
  | sendFails t =>
    obtain ⟨later, hlater, heq⟩ := Option.map_eq_some_iff.mp hstep
    cases heq
    obtain ⟨request, found, b, reading, -, rfl⟩ := sendFails_cases hlater
    rfl
  | forwardFails =>
    obtain ⟨later, hlater, heq⟩ := Option.map_eq_some_iff.mp hstep
    cases heq
    obtain ⟨incoming, under, b, copy, reading, -, rfl⟩ := forwardFails_cases hlater
    rfl
  | arrive n incoming =>
    obtain ⟨later, hlater, heq⟩ := Option.map_eq_some_iff.mp hstep
    cases heq
    exact (sameQueues_arrive hlater).held
  | receive n gps =>
    have hreceived : P.receive n gps = some (P', event) := hstep
    simp only [HandedOn] at hguard
    unfold receive at hreceived
    split at hreceived
    case h_1 => cases hreceived
    case h_2 incoming _ =>
      obtain ⟨rfl, -⟩ := Prod.mk.inj (Option.some.inj hreceived)
      cases (P.nic n).allocBuf with
      | none => rfl
      | some taken =>
        dsimp only
        split_ifs
        · rfl
        · rfl
        · rfl
        · rfl
    case h_3 incoming reading b _ =>
      obtain ⟨rfl, -⟩ := Prod.mk.inj (Option.some.inj hreceived)
      unfold update
      dsimp only
      split_ifs
      · rfl
      · rfl
      · cases P.forwardCopy n ((P.nic n).buffers b) with
        | none => rfl
        | some taken => rfl
    case h_4 =>
      obtain ⟨rfl, -⟩ := Prod.mk.inj (Option.some.inj hreceived)
      rfl
    case h_5 incoming reading b hphase =>
      obtain rfl : (P.notify n incoming reading b).1 = P' := by rw [Option.some.inj hreceived]
      rw [hphase] at hguard
      unfold notify
      split_ifs with hobserved hwatched
      · rfl
      · exact absurd (hguard hobserved) hwatched
      · rfl
    case h_6 =>
      obtain ⟨rfl, -⟩ := Prod.mk.inj (Option.some.inj hreceived)
      rfl
    case h_7 b _ =>
      obtain ⟨rfl, -⟩ := Prod.mk.inj (Option.some.inj hreceived)
      rcases P.freeBuffer_cases n b with hfreed | hlost
      · rw [hfreed]
        rfl
      · rw [hlost]
        rfl
  | receiveMessage n j capacity => exact absurd hguard id

/-- Assumes: the run of a component in which nobody calls `Communicator::receive`, every frame for a
port of the `Communicator` finds an observer of its messages, and no buffer is freed before the
constructor has returned. Whenever no frame is handled and none is sent, all buffers of the pool are
free, however many frames came before. -/
theorem pool_whole [DecidableEq τ] {mac : Address} {buffers : Medium → Fin bufferSize → Buffer}
    (hrun : Reaches Process.move HandedOn (Process.create false mac buffers) P)
    (hreceiver : P.receiver .shm = .idle) (happ : ∀ t, P.app t = .idle) (b : Fin bufferSize) :
    b ∈ (P.nic .shm).freeList := by
  have hkeep : ∀ (s : Process τ) action t,
      (s.Ordered mac ∧ s.gateway = false ∧ (∀ n, s.lost n = []) ∧ ∀ n, s.held n = []) →
        HandedOn s action → s.move action = some t →
          t.Ordered mac ∧ t.gateway = false ∧ (∀ n, t.lost n = []) ∧ ∀ n, t.held n = [] := by
    rintro s action t ⟨hordered, hcomponent, hkept, hheld⟩ hguard hmove
    obtain ⟨⟨later, event⟩, hstep, rfl⟩ := Option.map_eq_some_iff.mp hmove
    have hlost : later.lost = s.lost := by
      refine Process.lost_step hordered.offline (fun m gps b haction hphase ↦ ?_) hstep
      subst haction
      simpa only [HandedOn, hphase] using hguard
    refine ⟨hordered.step hstep, (Process.role_step hstep).1.trans hcomponent, fun n ↦ ?_,
      fun n ↦ ?_⟩
    · rw [hlost, hkept]
    · rw [Process.held_step hguard hstep, hheld]
  obtain ⟨hordered, hcomponent, hkept, hheld⟩ := hrun.invariant hkeep
    ⟨Process.ordered_create false mac buffers, rfl, fun _ ↦ rfl, fun _ ↦ rfl⟩
  have hidle : ∀ n, P.receiver n = .idle := by
    intro n
    cases n with
    | shm => exact hreceiver
    | raw => exact (hordered.offline hcomponent).receiver
  rcases hordered.free_or_queued hkept hidle happ .shm b with hfree | ⟨held, hin, -⟩
  · exact hfree
  · rw [hheld] at hin
    exact absurd hin List.not_mem_nil

/-- A frame is handled after a `SmartData` has attached to the `Communicator`. -/
def watchedActions : List (ProcessAction Unit) :=
  [ProcessAction.construct, ProcessAction.attach 6, ProcessAction.attach 0xFFFF,
    ProcessAction.watch 0xFFFF, ProcessAction.arrive .shm broadcastFrame] ++
    List.replicate 4 (ProcessAction.receive .shm 0)

theorem pool_whole_watchedActions :
    ∃ P : Process Unit, run Process.move HandedOn
        (Process.create false .internal blankBuffers) watchedActions = some P ∧
      P.watched = [0xFFFF] ∧ ∀ b, b ∈ (P.nic .shm).freeList := by
  have hrun : (run Process.move HandedOn
      (Process.create false .internal blankBuffers) watchedActions).map (fun P ↦
        (P.watched, (P.receiver .shm).remaining, (P.app ()).remaining)) =
          some ([0xFFFF], 0, 0) := by decide +kernel
  obtain ⟨P, hP, hthreads⟩ := Option.map_eq_some_iff.mp hrun
  obtain ⟨hwatched, hthreads⟩ := Prod.mk.inj hthreads
  obtain ⟨hreceiver, happ⟩ := Prod.mk.inj hthreads
  exact ⟨P, hP, hwatched, pool_whole (reaches_of_run watchedActions hP)
    (HandlerPhase.remaining_eq_zero_iff.mp hreceiver)
    fun t ↦ AppPhase.remaining_eq_zero_iff.mp happ⟩

/-- A frame is handled before a `SmartData` attaches to the `Communicator`. -/
def earlyActions : List (ProcessAction Unit) :=
  [ProcessAction.construct, ProcessAction.attach 6, ProcessAction.attach 0xFFFF,
    ProcessAction.arrive .shm broadcastFrame] ++
    List.replicate 3 (ProcessAction.receive .shm 0) ++ [ProcessAction.watch 0xFFFF]

/-- The buffer of an early frame does not come back. -/
theorem pool_not_whole :
    ∃ P : Process Unit, Reaches Process.move NobodyReceives
        (Process.create false .internal blankBuffers) P ∧
      0xFFFF ∈ P.observers ∧ 0xFFFF ∈ P.watched ∧ P.receiver .shm = .idle ∧
        (∀ t, P.app t = .idle) ∧ ¬∀ b, b ∈ (P.nic .shm).freeList := by
  have hrun : (run Process.move NobodyReceives
      (Process.create false .internal blankBuffers) earlyActions).map (fun P ↦
        (P.observers, P.watched, (P.receiver .shm).remaining, (P.app ()).remaining,
          decide (∀ b, b ∈ (P.nic .shm).freeList))) =
            some ([0xFFFF, 6], [0xFFFF], 0, 0, false) := by decide +kernel
  obtain ⟨P, hP, hends⟩ := Option.map_eq_some_iff.mp hrun
  obtain ⟨hobservers, hends⟩ := Prod.mk.inj hends
  obtain ⟨hwatched, hends⟩ := Prod.mk.inj hends
  obtain ⟨hreceiver, hends⟩ := Prod.mk.inj hends
  obtain ⟨happ, hpool⟩ := Prod.mk.inj hends
  refine ⟨P, reaches_of_run earlyActions hP, ?_, ?_,
    HandlerPhase.remaining_eq_zero_iff.mp hreceiver,
    fun t ↦ AppPhase.remaining_eq_zero_iff.mp happ, of_decide_eq_false hpool⟩
  · rw [hobservers]
    exact List.mem_cons_self
  · rw [hwatched]
    exact List.mem_cons_self

end Observed

end VehicleComm.Channel
