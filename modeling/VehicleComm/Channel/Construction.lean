import VehicleComm.Channel.Ledger

/-!
# Frames that come while `Protocol` is constructed

`NIC::attach` starts the receive thread, and the constructor of `Protocol` goes on: it creates
`_socket_nic` after it has attached to `_shm_nic`, installs the functions that read and write the
quadrant of a packet only after it has attached to `_socket_nic`, and sets `_instance`, without
which `free_buffer` does nothing, at its end. A frame of another quadrant that comes before the
first function is there is accepted, a frame of the ring goes to the network with whatever quadrant
its buffer had before the second is, or not at all before `_socket_nic` is, and the buffer of a
frame that is given up before `_instance` is set is lost (`construction_unsafe`).

In a run in which no frame does any of these, each step does what it would do if the constructor had
already gone on to its end (`Process.finish`): the finished process takes the same step and shows
the same (`Process.finish_step`), so it is one of a run in which nothing happens before the
constructor has returned (`Process.finish_reaches`), and what is true of such runs is true here
(`construction_safe`).
-/

set_option autoImplicit false
set_option relaxedAutoImplicit false

namespace VehicleComm.Channel

open Library Network

variable {τ : Type*} {P P' : Process τ}

/-- The raw handler looks at a frame only when it can read quadrants, a frame of the ring that is to
be forwarded finds the second NIC, its copy is sent only when the quadrant can be written into it,
and a buffer is given to `free_buffer` only when the constructor has returned. -/
def SetUpFirst (P : Process τ) : ProcessAction τ → Prop
  | .receive n _ =>
    match P.receiver n with
    | .handler _ =>
      n = .raw → P.stage = .readInstalled ∨ P.stage = .writeInstalled ∨ P.stage = .returned
    | .update incoming _ _ => n = .shm → P.Due .shm incoming.data → P.stage ≠ .shmAttached
    | .forward _ _ _ (.stamp _) => n = .shm → P.stage = .writeInstalled ∨ P.stage = .returned
    | .freeBuffer _ => P.stage = .returned
    | _ => True
  | _ => True

/-! ### The end of the constructor -/

/-- What the process is when the constructor has gone on to its end, and nothing else has happened.
-/
def Process.finish (P : Process τ) : Process τ := (fun Q ↦ Q.construct.getD Q)^[5] P

theorem Process.stage_finish (P : Process τ) : P.finish.stage = .returned := by
  cases hstage : P.stage <;> cases hrole : P.gateway <;>
    simp [finish, construct, hstage, hrole, setNic]

theorem Process.finish_of_returned (hreturned : P.stage = .returned) : P.finish = P :=
  Function.iterate_fixed (by rw [construct, hreturned]; rfl) 5

/-- The steps of the constructor lead to the same end. -/
theorem Process.finish_construct (hstep : P.construct = some P') : P'.finish = P.finish := by
  have hnext : P' = P.construct.getD P := by rw [hstep, Option.getD_some]
  have hend : P.finish.construct.getD P.finish = P.finish := by
    rw [construct, P.stage_finish]
    rfl
  calc P'.finish = (fun Q : Process τ ↦ Q.construct.getD Q)^[6] P := by
        rw [finish, hnext]
        exact (Function.iterate_succ_apply _ 5 P).symm
    _ = P.finish := by rw [Function.iterate_succ_apply', ← finish, hend]

theorem Process.reaches_finish [DecidableEq τ] (P : Process τ) :
    Reaches Process.move AfterConstruction P P.finish := by
  have hiterate : ∀ (count : ℕ) (Q : Process τ),
      Reaches Process.move AfterConstruction Q ((fun R ↦ R.construct.getD R)^[count] Q) := by
    intro count
    induction count with
    | zero =>
      intro Q
      exact Reaches.refl Q
    | succ count ih =>
      intro Q
      rw [Function.iterate_succ_apply]
      refine Reaches.trans ?_ (ih _)
      cases hstep : Q.construct with
      | none => exact Reaches.refl Q
      | some next =>
        have hmove : Q.move .construct = some next := by simp [move, step, hstep]
        exact (Reaches.refl Q).next .construct trivial hmove
  exact hiterate 5 P

/-! ### The functions for the quadrant -/

/-- The NIC as the constructor leaves it. -/
def install (gateway : Bool) : Medium → Nic → Nic
  | .shm, nic => nic
  | .raw, nic =>
    if gateway then
      { nic with
        readQuadrant := packetQuadrant
        writeQuadrant := writeQuadrant }
    else nic

section Install

variable {gateway : Bool} {n : Medium} {nic : Nic}

theorem install_buffers : (install gateway n nic).buffers = nic.buffers := by
  unfold install
  split
  · rfl
  · split_ifs <;> rfl

theorem install_freeList : (install gateway n nic).freeList = nic.freeList := by
  unfold install
  split
  · rfl
  · split_ifs <;> rfl

theorem install_address : (install gateway n nic).address = nic.address := by
  unfold install
  split
  · rfl
  · split_ifs <;> rfl

/-- A NIC that can read quadrants already reads them as it will. -/
theorem install_readQuadrant
    (hread : n = .raw → gateway = true → nic.readQuadrant = packetQuadrant) :
    (install gateway n nic).readQuadrant = nic.readQuadrant := by
  unfold install
  split
  · rfl
  · split_ifs with hrole
    · exact (hread rfl hrole).symm
    · rfl

theorem install_writeQuadrant
    (hwrite : n = .raw → gateway = true → nic.writeQuadrant = writeQuadrant) :
    (install gateway n nic).writeQuadrant = nic.writeQuadrant := by
  unfold install
  split
  · rfl
  · split_ifs with hrole
    · exact (hwrite rfl hrole).symm
    · rfl

theorem install_setBuffer (b : Fin bufferSize) (buffer : Buffer) :
    (install gateway n nic).setBuffer b buffer = install gateway n (nic.setBuffer b buffer) := by
  unfold install
  split
  · rfl
  · split_ifs <;> rfl

theorem install_setData (b : Fin bufferSize) (frame : Frame) :
    (install gateway n nic).setData b frame = install gateway n (nic.setData b frame) := by
  rw [Nic.setData, install_buffers, install_setBuffer]
  rfl

theorem install_free (b : Fin bufferSize) :
    (install gateway n nic).free b = install gateway n (nic.free b) := by
  unfold install
  split
  · rfl
  · split_ifs <;> rfl

theorem install_allocBuf :
    (install gateway n nic).allocBuf =
      nic.allocBuf.map fun taken ↦ (install gateway n taken.1, taken.2) := by
  unfold Nic.allocBuf
  rw [install_freeList]
  cases nic.freeList with
  | nil => rfl
  | cons b rest =>
    unfold install
    cases n with
    | shm => rfl
    | raw => cases gateway <;> rfl

theorem install_alloc (dst : Address) (protocol : UInt16) (size : ℕ) :
    (install gateway n nic).alloc dst protocol size =
      (nic.alloc dst protocol size).map fun taken ↦ (install gateway n taken.1, taken.2) := by
  unfold Nic.alloc
  split_ifs
  · rfl
  · rw [install_allocBuf, install_buffers, install_address]
    cases nic.allocBuf with
    | none => rfl
    | some taken => simp only [Option.map_some, install_setBuffer]

/-- A NIC that writes what it will write sends what it will send. -/
theorem install_sendStep {reading : UInt8} {send : SendPhase}
    (hwrites : ∀ b, send = .stamp b → (install gateway n nic).writeQuadrant = nic.writeQuadrant) :
    (install gateway n nic).sendStep reading send =
      (install gateway n (nic.sendStep reading send).1, (nic.sendStep reading send).2) := by
  cases send with
  | stamp b =>
    simp only [Nic.sendStep, hwrites b rfl, install_buffers, install_setData]
  | transmit b q => rfl
  | release b => simp only [Nic.sendStep, install_free]

theorem install_forwardToNetwork (buffer : Buffer) :
    forwardToNetwork (install gateway n nic) buffer =
      (forwardToNetwork nic buffer).map fun taken ↦ (install gateway n taken.1, taken.2) := by
  unfold forwardToNetwork
  rw [install_alloc, Option.map_map, Option.map_map]
  congr 1
  funext taken
  simp only [Function.comp_apply, install_buffers, install_setData]

theorem install_forwardToRing (buffer : Buffer) :
    forwardToRing (install gateway n nic) buffer =
      (forwardToRing nic buffer).map fun taken ↦ (install gateway n taken.1, taken.2) := by
  unfold forwardToRing
  rw [install_alloc, Option.map_map, Option.map_map]
  congr 1
  funext taken
  simp only [Function.comp_apply, install_buffers, install_setData]

end Install

/-- The process with what its constructor installs. -/
def Process.setUp (P : Process τ) : Process τ :=
  { P with
    stage := .returned
    nic := fun n ↦ install P.gateway n (P.nic n) }

theorem Process.setUp_setNic (P : Process τ) (n : Medium) (nic : Nic) :
    (P.setNic n nic).setUp = P.setUp.setNic n (install P.gateway n nic) := by
  have hnic : (fun m ↦ install P.gateway m (Function.update P.nic n nic m)) =
      Function.update (fun m ↦ install P.gateway m (P.nic m)) n (install P.gateway n nic) := by
    funext m
    by_cases hm : m = n
    · subst hm
      simp only [Function.update_self]
    · simp only [Function.update_of_ne hm]
  simp only [setUp, setNic, hnic]

theorem Process.setUp_setReceiver (P : Process τ) (n : Medium) (phase : HandlerPhase) :
    (P.setReceiver n phase).setUp = P.setUp.setReceiver n phase := rfl

theorem Process.setUp_buffers (P : Process τ) (n : Medium) :
    (P.setUp.nic n).buffers = (P.nic n).buffers :=
  install_buffers

/-- What is true of the constructor while it runs: nobody sends, and that of a component has
nothing to do after its attach to the ring. -/
structure Process.Early (P : Process τ) : Prop where
  app : P.stage ≠ .returned → ∀ t, P.app t = .idle
  component : P.gateway = false → P.stage = .shmAttached ∨ P.stage = .returned

/-- The constructor installs what it says. -/
theorem Process.Ordered.finish_eq {mac : Address} (h : P.Ordered mac) (hearly : P.Early)
    (hbusy : P.stage ≠ .returned) : P.finish = P.setUp := by
  cases hrole : P.gateway with
  | false =>
    have hstage : P.stage = .shmAttached := (hearly.component hrole).resolve_right hbusy
    have hnic : (fun n ↦ install false n (P.nic n)) = P.nic := by
      funext n
      cases n <;> rfl
    simp [finish, setUp, construct, hstage, hrole, hnic]
  | true =>
    have hnic : (fun n ↦ install true n (P.nic n)) = Function.update P.nic .raw
        { P.nic .raw with
          readQuadrant := packetQuadrant
          writeQuadrant := writeQuadrant } := by
      funext n
      cases n <;> rfl
    have hreads := h.sound.reads hrole
    have hwrites := h.sound.writes hrole
    rw [setUp, hrole, hnic]
    cases hstage : P.stage with
    | shmAttached | socketCreated | socketAttached =>
      simp [finish, construct, hstage, hrole, setNic]
    | readInstalled =>
      have hread : (P.nic .raw).readQuadrant = packetQuadrant := hreads (by simp [hstage])
      simp [finish, construct, hstage, setNic, hrole, ← hread]
    | writeInstalled =>
      have hread : (P.nic .raw).readQuadrant = packetQuadrant := hreads (by simp [hstage])
      have hwrite : (P.nic .raw).writeQuadrant = writeQuadrant := hwrites (by simp [hstage])
      simp [finish, construct, hstage, hrole, ← hread, ← hwrite]
    | returned => exact absurd hstage hbusy

/-! ### The same steps -/

section Steps

variable {n : Medium}

theorem Process.setUp_handle {incoming : Incoming} {gps : UInt8}
    (hread : n = .raw → P.gateway = true → (P.nic n).readQuadrant = packetQuadrant) :
    P.setUp.handle n incoming gps =
      ((P.handle n incoming gps).1.setUp, (P.handle n incoming gps).2) := by
  have hnic : P.setUp.nic n = install P.gateway n (P.nic n) := rfl
  unfold handle
  rw [hnic, install_allocBuf]
  cases htaken : (P.nic n).allocBuf with
  | none => rfl
  | some taken =>
    obtain ⟨nic, b⟩ := taken
    have hsetup := (Nic.takes_allocBuf htaken).setup
    have hreader : (install P.gateway n nic).readQuadrant = nic.readQuadrant :=
      install_readQuadrant (by rwa [hsetup.reads])
    simp only [Option.map_some, install_buffers, install_address, hreader, install_setData,
      install_setBuffer, ← setUp_setNic, ← setUp_setReceiver]
    split_ifs
    · rfl
    · rfl
    · rfl
    · rfl

/-- The copy is made alike when the other NIC is there for a frame that needs it. -/
theorem Process.setUp_forwardCopy {buffer : Buffer}
    (hsocket : n = .shm → P.gateway = true → forwardsToNetwork buffer.data.bytes = true →
      P.stage ≠ .shmAttached) :
    P.setUp.forwardCopy n buffer =
      (P.forwardCopy n buffer).map fun taken ↦
        (install P.gateway n.other taken.1, taken.2) := by
  cases n with
  | raw => exact install_forwardToRing buffer
  | shm =>
    have hthere : (P.setUp.hasSocket && forwardsToNetwork buffer.data.bytes) =
        (P.hasSocket && forwardsToNetwork buffer.data.bytes) := by
      cases hrole : P.gateway <;> cases hforwards : forwardsToNetwork buffer.data.bytes <;>
        simp_all [hasSocket, setUp]
    simp only [forwardCopy, hthere]
    split_ifs
    · exact install_forwardToNetwork buffer
    · rfl

theorem Process.setUp_update {incoming : Incoming} {reading : UInt8} {b : Fin bufferSize}
    (hsocket : packetHeaderSize ≤ ((P.nic n).buffers b).size → n = .shm → P.gateway = true →
      forwardsToNetwork ((P.nic n).buffers b).data.bytes = true → P.stage ≠ .shmAttached) :
    P.setUp.update n incoming reading b = (P.update n incoming reading b).setUp := by
  unfold update
  simp only [setUp_buffers]
  split_ifs with hshort
  · rfl
  · rfl
  · rw [setUp_forwardCopy (hsocket (not_lt.mp hshort))]
    cases P.forwardCopy n ((P.nic n).buffers b) with
    | none => rfl
    | some taken => simp only [Option.map_some, ← setUp_setNic, ← setUp_setReceiver]

theorem Process.setUp_forward {incoming : Incoming} {reading : UInt8} {b : Fin bufferSize}
    {send : SendPhase} {gps : UInt8}
    (hwrite : ∀ c, send = .stamp c → n.other = .raw → P.gateway = true →
      (P.nic n.other).writeQuadrant = writeQuadrant) :
    P.setUp.forward n incoming reading b send gps =
      ((P.forward n incoming reading b send gps).1.setUp,
        (P.forward n incoming reading b send gps).2) := by
  have hnic : P.setUp.nic n.other = install P.gateway n.other (P.nic n.other) := rfl
  have hstep : (install P.gateway n.other (P.nic n.other)).sendStep
      (currentQuadrant n.other gps) send =
        (install P.gateway n.other ((P.nic n.other).sendStep (currentQuadrant n.other gps) send).1,
          ((P.nic n.other).sendStep (currentQuadrant n.other gps) send).2) :=
    install_sendStep fun c hstamp ↦ install_writeQuadrant (hwrite c hstamp)
  have hshown : transmission n.other (install P.gateway n.other (P.nic n.other))
      (.forwarded incoming.source reading) send =
        transmission n.other (P.nic n.other) (.forwarded incoming.source reading) send := by
    cases send with
    | transmit c q => simp only [transmission, install_buffers]
    | stamp c => rfl
    | release c => rfl
  simp only [forward, hnic, hstep, hshown, ← setUp_setNic, ← setUp_setReceiver]

theorem Process.setUp_notify {incoming : Incoming} {reading : UInt8} {b : Fin bufferSize} :
    P.setUp.notify n incoming reading b =
      ((P.notify n incoming reading b).1.setUp, (P.notify n incoming reading b).2) := by
  have hobservers : P.setUp.observers = P.observers := rfl
  have hwatched : P.setUp.watched = P.watched := rfl
  unfold notify
  simp only [setUp_buffers, hobservers, hwatched]
  split_ifs
  · rfl
  · rfl
  · rfl

/-- A step of a receive thread that meets the guard. -/
theorem Process.Ordered.setUp_receive {mac : Address} (h : P.Ordered mac)
    (hbusy : P.stage ≠ .returned) {gps : UInt8} {event : Event}
    (hguard : SetUpFirst P (.receive n gps)) (hstep : P.receive n gps = some (P', event)) :
    P.setUp.receive n gps = some (P'.setUp, event) := by
  have hreceiver : P.setUp.receiver n = P.receiver n := rfl
  cases hphase : P.receiver n with
  | idle => simp only [receive, hphase, reduceCtorEq] at hstep
  | handler incoming =>
    simp only [receive, hphase, Option.some.injEq] at hstep
    simp only [SetUpFirst, hphase] at hguard
    simp only [receive, hreceiver, hphase, Option.some.injEq]
    rw [setUp_handle, hstep]
    rintro rfl hrole
    refine h.sound.reads hrole ?_
    rcases hguard rfl with hstage | hstage | hstage
    · simp [hstage]
    · simp [hstage]
    · simp [hstage]
  | update incoming reading b =>
    simp only [receive, hphase, Option.some.injEq, Prod.mk.injEq] at hstep
    obtain ⟨rfl, rfl⟩ := hstep
    simp only [SetUpFirst, hphase] at hguard
    simp only [receive, hreceiver, hphase, Option.some.injEq, Prod.mk.injEq, and_true]
    have hclaim := h.sound.ownClaim (n := n) (b := b)
      (by rw [hphase]; exact List.mem_singleton_self b)
    rw [hphase] at hclaim
    have hloaded : Loaded incoming ((P.nic n).buffers b) := hclaim.1
    refine setUp_update fun hsize hring hrole hforwards ↦
      hguard hring ⟨⟨?_, ?_⟩, fun _ ↦ ⟨hrole, ?_⟩⟩
    · rw [← hloaded.length]
      exact Nat.add_le_add_left hsize _
    · exact fun heq ↦ by cases heq
    · rwa [← hloaded.forwardsToNetwork]
  | forward incoming reading b send =>
    simp only [receive, hphase, Option.some.injEq] at hstep
    simp only [receive, hreceiver, hphase, Option.some.injEq]
    rw [setUp_forward, hstep]
    rintro c rfl hraw hrole
    simp only [SetUpFirst, hphase] at hguard
    cases n with
    | raw => cases hraw
    | shm =>
      refine h.sound.writes hrole ?_
      rcases hguard rfl with hstage | hstage
      · simp [hstage]
      · simp [hstage]
  | notify incoming reading b =>
    simp only [receive, hphase, Option.some.injEq] at hstep
    simp only [receive, hreceiver, hphase, Option.some.injEq]
    rw [setUp_notify, hstep]
  | discard b =>
    simp only [receive, hphase, Option.some.injEq, Prod.mk.injEq] at hstep
    obtain ⟨rfl, rfl⟩ := hstep
    have hnic : P.setUp.nic n = install P.gateway n (P.nic n) := rfl
    simp only [receive, hreceiver, hphase, hnic, install_free, ← setUp_setNic, ← setUp_setReceiver]
  | freeBuffer b =>
    simp only [SetUpFirst, hphase] at hguard
    exact absurd hguard hbusy

end Steps

/-! ### Runs -/

theorem Process.early_create (gateway : Bool) (mac : Address)
    (buffers : Medium → Fin bufferSize → Buffer) :
    (Process.create gateway mac buffers : Process τ).Early :=
  ⟨fun _ _ ↦ rfl, fun _ ↦ Or.inl rfl⟩

/-- While the constructor runs no thread sends. -/
theorem Process.Early.app_step [DecidableEq τ] (h : P.Early) (hbusy : P.stage ≠ .returned)
    {action : ProcessAction τ} {event : Event} (hstep : P.step action = some (P', event)) (t : τ) :
    P'.app t = .idle := by
  have hidle := h.app hbusy
  cases action with
  | construct => rw [(sameThreads_step rfl hstep).1.app, hidle]
  | attach port => rw [(sameThreads_step rfl hstep).1.app, hidle]
  | detach port => rw [(sameThreads_step rfl hstep).1.app, hidle]
  | watch port => rw [(sameThreads_step rfl hstep).1.app, hidle]
  | unwatch port => rw [(sameThreads_step rfl hstep).1.app, hidle]
  | callSend u request => simp [Process.step, callSend, hidle, hbusy] at hstep
  | send u gps => simp [Process.step, send, hidle] at hstep
  | sendFails u => simp [Process.step, sendFails, hidle] at hstep
  | arrive n incoming =>
    obtain ⟨later, hlater, heq⟩ := Option.map_eq_some_iff.mp hstep
    cases heq
    unfold arrive at hlater
    split at hlater
    · split_ifs at hlater
      cases hlater
      exact hidle t
    · cases hlater
  | receive n gps => rw [(receiverStep_receive hstep).app, hidle]
  | forwardFails =>
    obtain ⟨later, hlater, heq⟩ := Option.map_eq_some_iff.mp hstep
    cases heq
    obtain ⟨incoming, under, b, copy, reading, -, rfl⟩ := forwardFails_cases hlater
    exact hidle t
  | receiveMessage n j capacity =>
    simp only [Process.step, receiveMessage] at hstep
    split at hstep
    · cases hstep
    · rw [if_neg hbusy] at hstep
      cases hstep

theorem Process.Early.step [DecidableEq τ] (h : P.Early) {action : ProcessAction τ}
    {event : Event} (hstep : P.step action = some (P', event)) : P'.Early := by
  have hrole := role_step hstep
  by_cases hconstruct : action = .construct
  · subst hconstruct
    obtain ⟨later, hlater, heq⟩ := Option.map_eq_some_iff.mp hstep
    cases heq
    refine ⟨fun _ ↦ h.app_step (fun hreturned ↦ ?_) hstep, fun hcomponent ↦ Or.inr ?_⟩
    · simp [construct, hreturned] at hlater
    · rw [hrole.1] at hcomponent
      rcases h.component hcomponent with hstage | hstage
      · simp only [construct, hstage, hcomponent] at hlater
        cases hlater
        rfl
      · simp [construct, hstage] at hlater
  · refine ⟨fun hbusy ↦ ?_, fun hcomponent ↦ ?_⟩
    · rw [hrole.2 hconstruct] at hbusy
      exact h.app_step hbusy hstep
    · rw [hrole.1] at hcomponent
      rw [hrole.2 hconstruct]
      exact h.component hcomponent

/-- The step lemma of the constructor. Assumes: a step that meets the guard, other than one of the
constructor. The process whose constructor has gone on to its end takes the same step and shows the
same. -/
theorem Process.Ordered.finish_step [DecidableEq τ] {mac : Address} (h : P.Ordered mac)
    (hearly : P.Early) {action : ProcessAction τ} {event : Event} (hguard : SetUpFirst P action)
    (hother : action ≠ .construct) (hstep : P.step action = some (P', event)) :
    P.finish.step action = some (P'.finish, event) := by
  have hstage := (role_step hstep).2 hother
  by_cases hreturned : P.stage = .returned
  · rw [finish_of_returned hreturned, finish_of_returned (hstage.trans hreturned), hstep]
  have hidle := hearly.app hreturned
  rw [h.finish_eq hearly hreturned,
    (h.step hstep).finish_eq (hearly.step hstep) (by rwa [hstage])]
  cases action with
  | construct => exact absurd rfl hother
  | attach port => simp [Process.step, Process.attach, hreturned] at hstep
  | detach port =>
    obtain ⟨rfl, rfl⟩ := Prod.mk.inj (Option.some.inj hstep)
    rfl
  | watch port =>
    obtain ⟨rfl, rfl⟩ := Prod.mk.inj (Option.some.inj hstep)
    rfl
  | unwatch port =>
    obtain ⟨rfl, rfl⟩ := Prod.mk.inj (Option.some.inj hstep)
    rfl
  | callSend t request => simp [Process.step, callSend, hidle, hreturned] at hstep
  | send t gps => simp [Process.step, send, hidle] at hstep
  | sendFails t => simp [Process.step, sendFails, hidle] at hstep
  | arrive n incoming =>
    obtain ⟨later, hlater, heq⟩ := Option.map_eq_some_iff.mp hstep
    cases heq
    unfold arrive at hlater
    split at hlater
    case h_1 hphase =>
      split_ifs at hlater with hruns
      cases hlater
      have hthere : n = .raw → P.setUp.socketReceives = true := by
        intro hraw
        have hreceives := hruns hraw
        rw [socketReceives, hasSocket, Bool.and_eq_true, Bool.and_eq_true] at hreceives
        simp [socketReceives, hasSocket, setUp, hreceives.1.1]
      have hreceiver : P.setUp.receiver n = .idle := hphase
      simp only [Process.step, arrive, hreceiver, if_pos hthere, Option.map_some, setUp_setReceiver]
    case h_2 => cases hlater
  | receive n gps => exact h.setUp_receive hreturned hguard hstep
  | forwardFails =>
    obtain ⟨later, hlater, heq⟩ := Option.map_eq_some_iff.mp hstep
    cases heq
    obtain ⟨incoming, under, b, copy, reading, hphase, rfl⟩ := forwardFails_cases hlater
    have hreceiver : P.setUp.receiver .shm = .forward incoming under b (.transmit copy reading) :=
      hphase
    simp only [Process.step, forwardFails, hreceiver, Option.map_some, setUp_setReceiver]
  | receiveMessage n j capacity =>
    simp only [Process.step, receiveMessage] at hstep
    split at hstep
    · cases hstep
    · rw [if_neg hreturned] at hstep
      cases hstep

structure Process.Starts (mac : Address) (P : Process τ) : Prop where
  ordered : P.Ordered mac
  early : P.Early
  kept : ∀ n, P.lost n = []

theorem Process.starts_create (gateway : Bool) (mac : Address)
    (buffers : Medium → Fin bufferSize → Buffer) :
    (Process.create gateway mac buffers : Process τ).Starts mac :=
  ⟨ordered_create gateway mac buffers, early_create gateway mac buffers, fun _ ↦ rfl⟩

theorem Process.Starts.step [DecidableEq τ] {mac : Address} (h : P.Starts mac)
    {action : ProcessAction τ} {event : Event} (hguard : SetUpFirst P action)
    (hstep : P.step action = some (P', event)) : P'.Starts mac := by
  refine ⟨h.ordered.step hstep, h.early.step hstep, fun n ↦ ?_⟩
  have hlost : P'.lost = P.lost := by
    refine lost_step h.ordered.offline (fun m gps b haction hphase ↦ ?_) hstep
    subst haction
    simpa only [SetUpFirst, hphase] using hguard
  rw [hlost, h.kept]

/-- The run lemma of the constructor. Assumes: a run that meets the guard. The process at its end
whose constructor goes on to its end is one of a run in which nothing happens before the constructor
has returned. -/
theorem Process.finish_reaches [DecidableEq τ] {mac : Address} {P₀ : Process τ}
    (hstart : P₀.Starts mac) (hrun : Reaches Process.move SetUpFirst P₀ P) :
    P.Starts mac ∧ Reaches Process.move AfterConstruction P₀ P.finish := by
  induction hrun with
  | refl => exact ⟨hstart, reaches_finish P₀⟩
  | tail _ hlast ih =>
    obtain ⟨hstarts, hfinished⟩ := ih
    obtain ⟨action, hguard, hmove⟩ := hlast
    obtain ⟨⟨later, event⟩, hstep, rfl⟩ := Option.map_eq_some_iff.mp hmove
    refine ⟨hstarts.step hguard hstep, ?_⟩
    by_cases hconstruct : action = .construct
    · subst hconstruct
      obtain ⟨next, hnext, heq⟩ := Option.map_eq_some_iff.mp hstep
      cases heq
      rwa [finish_construct hnext]
    · refine hfinished.next action ?_
        (by rw [move, hstarts.ordered.finish_step hstarts.early hguard hconstruct hstep]; rfl)
      cases action with
      | construct => exact absurd rfl hconstruct
      | _ => exact stage_finish _

/-- A frame of another quadrant is dropped: the buffer, if one was taken, is on its way back to the
pool, and nothing else happens. -/
def Process.Drops (P : Process τ) (incoming : Incoming) (gps : UInt8) : Prop :=
  (P.handle .raw incoming gps).2 = .quiet ∧
    ((P.handle .raw incoming gps).1.receiver .raw = .idle ∨
      ∃ b, (P.handle .raw incoming gps).1.receiver .raw = .discard b)

/-- A NIC that can read quadrants drops the frames of another one. -/
theorem Process.drops_of_reads (hread : (P.nic .raw).readQuadrant = packetQuadrant)
    {incoming : Incoming} {gps : UInt8} (hother : ¬QuadrantAgrees incoming.data gps) :
    P.Drops incoming gps := by
  unfold Drops handle
  cases halloc : (P.nic .raw).allocBuf with
  | none => exact ⟨rfl, Or.inl (setReceiver_receiver_self ..)⟩
  | some taken =>
    obtain ⟨nic, b⟩ := taken
    have hsetup := (Nic.takes_allocBuf halloc).setup
    simp only [min_eq_left incoming.fits, List.take_length]
    split_ifs with hshort hdrop htype
    · exact ⟨rfl, Or.inr ⟨b, setReceiver_receiver_self ..⟩⟩
    · exact ⟨rfl, Or.inr ⟨b, setReceiver_receiver_self ..⟩⟩
    · rw [hsetup.reads] at hdrop
      exact absurd (quadrantAgrees_of_kept hread (Bool.eq_false_iff.mpr hdrop)) hother
    · exact ⟨rfl, Or.inr ⟨b, setReceiver_receiver_self ..⟩⟩

theorem Process.Ordered.drops {mac : Address} (h : P.Ordered mac) {incoming : Incoming}
    {gps : UInt8} (hphase : P.receiver .raw = .handler incoming)
    (hguard : SetUpFirst P (.receive .raw gps)) (hother : ¬QuadrantAgrees incoming.data gps) :
    P.Drops incoming gps := by
  have hrole : P.gateway = true := by
    by_contra hcomponent
    rw [(h.offline (Bool.eq_false_iff.mpr hcomponent)).receiver] at hphase
    cases hphase
  simp only [SetUpFirst, hphase] at hguard
  refine drops_of_reads (h.sound.reads hrole ?_) hother
  rcases hguard trivial with hstage | hstage | hstage
  · simp [hstage]
  · simp [hstage]
  · simp [hstage]

/-- A frame of the ring that is due on the network goes there when there is a buffer for it. -/
theorem Process.Ordered.forwards {mac : Address} (h : P.Ordered mac) {incoming : Incoming}
    {under gps : UInt8} {b : Fin bufferSize}
    (hphase : P.receiver .shm = .update incoming under b)
    (hguard : SetUpFirst P (.receive .shm gps)) (hdue : P.Due .shm incoming.data)
    (hroom : (P.nic .raw).freeList ≠ []) :
    ∃ copy, (P.update .shm incoming under b).receiver .shm =
      .forward incoming under b (.stamp copy) := by
  simp only [SetUpFirst, hphase] at hguard
  have hclaim := h.sound.ownClaim (n := .shm) (b := b)
    (by rw [hphase]; exact List.mem_singleton_self b)
  rw [hphase] at hclaim
  have hloaded : Loaded incoming ((P.nic .shm).buffers b) := hclaim.1
  have hcopied : P.forwardCopy .shm ((P.nic .shm).buffers b) ≠ none :=
    forwardCopy_of_due hdue hloaded hroom fun _ ↦ hguard trivial hdue
  have hsize : ¬((P.nic .shm).buffers b).size < packetHeaderSize := by
    have hlength := hdue.propagated.length
    rw [← hloaded.length] at hlength
    omega
  obtain ⟨taken, hcopy⟩ := Option.ne_none_iff_exists'.mp hcopied
  refine ⟨taken.2, ?_⟩
  simp [update, hsize, hcopy]

/-- The end of the constructor leaves the role, the receive threads and the contents of the buffers
alone. -/
theorem Process.Starts.finish_same {mac : Address} (h : P.Starts mac) :
    P.finish.gateway = P.gateway ∧ P.finish.receiver = P.receiver ∧
      ∀ n, (P.finish.nic n).buffers = (P.nic n).buffers := by
  by_cases hreturned : P.stage = .returned
  · rw [finish_of_returned hreturned]
    exact ⟨rfl, rfl, fun _ ↦ rfl⟩
  · rw [h.ordered.finish_eq h.early hreturned]
    exact ⟨rfl, rfl, P.setUp_buffers⟩

/-- In a run in which nothing happens before the constructor has returned, the quadrants are those
of a gateway. -/
theorem Process.sound_of_afterConstruction [DecidableEq τ] {gateway : Bool} {mac : Address}
    {buffers : Medium → Fin bufferSize → Buffer}
    (hrun : Reaches Process.move AfterConstruction (Process.create gateway mac buffers) P) :
    P.gateway = gateway ∧ P.Sound mac (fun _ _ ↦ True) (gateway = true) := by
  refine hrun.invariant (P := fun Q ↦ Q.gateway = gateway ∧
    Q.Sound mac (fun _ _ ↦ True) (gateway = true)) ?_
    ⟨rfl, sound_create gateway mac buffers _ _⟩
  rintro s action t ⟨hrole, hsound⟩ hguard hmove
  obtain ⟨⟨later, event⟩, hstep, rfl⟩ := Option.map_eq_some_iff.mp hmove
  refine ⟨(role_step hstep).1.trans hrole,
    hsound.step (fun _ _ _ ↦ trivial) (fun hgateway hother ↦ ⟨hrole.trans hgateway, ?_⟩) hstep⟩
  cases action with
  | construct => exact absurd rfl hother
  | _ => exact hguard

/-- The copy of a frame of the ring is sent with the reading of the quadrant in it. -/
theorem Process.Starts.stamped [DecidableEq τ] {gateway : Bool} {mac : Address}
    {buffers : Medium → Fin bufferSize → Buffer} (h : P.Starts mac)
    (hlater : Reaches Process.move AfterConstruction (Process.create gateway mac buffers) P.finish)
    {incoming : Incoming} {under reading : UInt8} {b copy : Fin bufferSize}
    (hphase : P.receiver .shm = .forward incoming under b (.transmit copy reading)) :
    ((P.nic .raw).buffers copy).wire =
      stampQuadrant (copyBytes mac .shm incoming.data) reading := by
  obtain ⟨hsame, hreceiver, hbuffers⟩ := h.finish_same
  obtain ⟨hrole, hsound⟩ := sound_of_afterConstruction hlater
  have hgateway : gateway = true := by
    by_contra hcomponent
    rw [← hrole, hsame] at hcomponent
    have hlent := (h.ordered.offline (Bool.eq_false_iff.mpr hcomponent)).forward
    rw [hphase] at hlent
    cases hlent
  have hclaim := hsound.lentClaim (n := .shm) (c := copy)
    (by rw [hreceiver, hphase]; exact List.mem_singleton_self copy)
  rw [hreceiver, hphase] at hclaim
  rw [← hbuffers]
  rcases hclaim with hwritten | ⟨hnot, -⟩
  · exact hwritten
  · exact absurd hgateway hnot

/-- A process that may still be in its constructor treats the frames it gets as it would after it:
it has its buffers in order, it drops the frames of another quadrant, and the process whose
constructor has gone on to its end, which is one of a run in which nothing happens before that end,
takes the same steps and shows the same. In particular a frame of the ring that is due on the
network is forwarded when there is a buffer for it, and what is handed to the socket is its copy
with the reading of the quadrant written into it. -/
structure Process.HandledAlike [DecidableEq τ] (gateway : Bool) (mac : Address)
    (buffers : Medium → Fin bufferSize → Buffer) (P : Process τ) : Prop where
  owned : P.BuffersOwned
  foreign : ∀ incoming gps, P.receiver .raw = .handler incoming →
    SetUpFirst P (.receive .raw gps) → ¬QuadrantAgrees incoming.data gps → P.Drops incoming gps
  later : Reaches Process.move AfterConstruction (Process.create gateway mac buffers) P.finish
  alike : ∀ action P' event, SetUpFirst P action → action ≠ .construct →
    P.step action = some (P', event) → P.finish.step action = some (P'.finish, event)
  forwards : ∀ incoming under b gps, P.receiver .shm = .update incoming under b →
    SetUpFirst P (.receive .shm gps) → P.Due .shm incoming.data → (P.nic .raw).freeList ≠ [] →
      ∃ copy, (P.update .shm incoming under b).receiver .shm =
        .forward incoming under b (.stamp copy)
  stamped : ∀ incoming under b copy reading,
    P.receiver .shm = .forward incoming under b (.transmit copy reading) →
      ((P.nic .raw).buffers copy).wire = stampQuadrant (copyBytes mac .shm incoming.data) reading

/-- Assumes: a run in which the raw handler looks at a frame only when the function that reads
quadrants is installed, `Protocol::update` looks at a frame of the ring that is due on the network
only when `_socket_nic` is there, its copy is sent only when the function that writes quadrants is
installed, and `free_buffer` is called only when `_instance` is set. Whatever frames come, at
whichever step of the constructor, are treated as after it. -/
theorem construction_safe [DecidableEq τ] {gateway : Bool} {mac : Address}
    {buffers : Medium → Fin bufferSize → Buffer}
    (hrun : Reaches Process.move SetUpFirst (Process.create gateway mac buffers) P) :
    P.HandledAlike gateway mac buffers := by
  obtain ⟨hstarts, hlater⟩ :=
    Process.finish_reaches (Process.starts_create gateway mac buffers) hrun
  exact
    { owned := hstarts.ordered.buffersOwned hstarts.kept
      foreign := fun incoming gps hphase hguard hother ↦
        hstarts.ordered.drops hphase hguard hother
      later := hlater
      alike := fun action P' event hguard hother hstep ↦
        hstarts.ordered.finish_step hstarts.early hguard hother hstep
      forwards := fun incoming under b gps hphase hguard hdue hroom ↦
        hstarts.ordered.forwards hphase hguard hdue hroom
      stamped := fun incoming under b copy reading hphase ↦
        hstarts.stamped hlater hphase }

instance (P : Process τ) (action : ProcessAction τ) : Decidable (SetUpFirst P action) :=
  match action with
  | .receive n _ =>
    match hphase : P.receiver n with
    | .handler _ => decidable_of_iff (n = .raw → P.stage = .readInstalled ∨
        P.stage = .writeInstalled ∨ P.stage = .returned) (by simp only [SetUpFirst, hphase])
    | .update incoming _ _ => decidable_of_iff (n = .shm → P.Due .shm incoming.data →
        P.stage ≠ .shmAttached) (by simp only [SetUpFirst, hphase])
    | .forward _ _ _ (.stamp _) => decidable_of_iff (n = .shm → P.stage = .writeInstalled ∨
        P.stage = .returned) (by simp only [SetUpFirst, hphase])
    | .freeBuffer _ => decidable_of_iff (P.stage = .returned) (by simp only [SetUpFirst, hphase])
    | .idle | .forward _ _ _ (.transmit _ _) | .forward _ _ _ (.release _) | .notify _ _ _
    | .discard _ => isTrue (by simp only [SetUpFirst, hphase])
  | .construct | .attach _ | .detach _ | .watch _ | .unwatch _ | .callSend _ _ | .send _ _
  | .sendFails _ | .arrive _ _ | .forwardFails | .receiveMessage _ _ _ => isTrue trivial

/-- A frame of a vehicle in quadrant 1, with one byte of data. -/
def foreignFrame : Incoming where
  source := 0
  data := etherHeader .broadcast ⟨[2, 0, 0, 0, 0, 9], rfl⟩ proto ++
    [1, 0, 0, 0, 0, 0, 0, 0, 5, 0, 0xFF, 0xFF, 1, 0, 7, 0, 0]
  fits := Nat.le_of_ble_eq_true rfl

theorem not_quadrantAgrees_foreignFrame : ¬QuadrantAgrees foreignFrame.data 2 := by
  intro hagrees
  exact absurd (hagrees (by decide) (by decide) (by decide)) (by decide)

def topBuffer : Fin bufferSize := ⟨99, by decide⟩

/-- A raw frame waits in the handler until quadrants can be read, and the copy of a frame of the
ring until they can be written. -/
def patientActions : List (ProcessAction Unit) :=
  List.replicate 2 .construct ++ [.arrive .raw foreignFrame, .arrive .shm broadcastFrame] ++
    List.replicate 2 (.receive .shm 2) ++ List.replicate 2 .construct ++ [.receive .shm 2]

theorem construction_safe_patientActions :
    ∃ P : Process Unit, run Process.move SetUpFirst
        (Process.create true ⟨[2, 0, 0, 0, 0, 1], rfl⟩ blankBuffers) patientActions = some P ∧
      P.stage = .writeInstalled ∧ P.BuffersOwned ∧ P.Drops foreignFrame 2 ∧
        ∃ copy, ((P.nic .raw).buffers copy).wire = stampQuadrant
          (copyBytes ⟨[2, 0, 0, 0, 0, 1], rfl⟩ .shm broadcastFrame.data) 2 := by
  have hrun : (run Process.move SetUpFirst
      (Process.create true ⟨[2, 0, 0, 0, 0, 1], rfl⟩ blankBuffers) patientActions).map (fun P ↦
        (P.receiver .raw, P.receiver .shm, P.stage)) =
          some (.handler foreignFrame, .forward broadcastFrame 2 topBuffer (.transmit topBuffer 2),
            .writeInstalled) := by
    decide +kernel
  obtain ⟨P, hP, hends⟩ := Option.map_eq_some_iff.mp hrun
  obtain ⟨hraw, hrest⟩ := Prod.mk.inj hends
  obtain ⟨hring, hstage⟩ := Prod.mk.inj hrest
  have halike := construction_safe (reaches_of_run patientActions hP)
  refine ⟨P, hP, hstage, halike.owned,
    halike.foreign foreignFrame 2 hraw ?_ not_quadrantAgrees_foreignFrame,
    topBuffer, halike.stamped broadcastFrame 2 topBuffer topBuffer 2 hring⟩
  simp only [SetUpFirst, hraw]
  exact fun _ ↦ Or.inr (Or.inl hstage)

/-- A raw frame is handled between the attach to `_socket_nic` and `setup_read_quadrant`. -/
def eagerActions : List (ProcessAction Unit) :=
  List.replicate 2 .construct ++ [.arrive .raw foreignFrame]

/-- A frame of the ring that nobody listens for is handled before `_instance` is set. -/
def orphanActions : List (ProcessAction Unit) :=
  .arrive .shm broadcastFrame :: List.replicate 4 (.receive .shm 0)

/-- A frame of the ring waits in `Protocol::update` of a gateway that has no `_socket_nic` yet. -/
def earlyRingActions : List (ProcessAction Unit) :=
  [.arrive .shm broadcastFrame, .receive .shm 2]

/-- The copy of a frame of the ring is handed to the socket before `setup_write_quadrant`. -/
def unstampedActions : List (ProcessAction Unit) :=
  List.replicate 2 .construct ++ [.arrive .shm broadcastFrame] ++
    List.replicate 3 (.receive .shm 2)

/-- A frame of another quadrant is not dropped, and a buffer is lost. A frame of the ring that is
due on the network is not forwarded, though there is a buffer for it, and another one is handed to
the socket with quadrant 0 while the GPS shows 2. -/
theorem construction_unsafe :
    (∃ P : Process Unit, Reaches Process.move Unguarded
        (Process.create true ⟨[2, 0, 0, 0, 0, 1], rfl⟩ blankBuffers) P ∧
      P.receiver .raw = .handler foreignFrame ∧ ¬QuadrantAgrees foreignFrame.data 2 ∧
        ¬P.Drops foreignFrame 2) ∧
    (∃ P : Process Unit, Reaches Process.move Unguarded
        (Process.create false .internal blankBuffers) P ∧
      P.receiver .shm = .idle ∧ (P.lost .shm).length = 1) ∧
    (∃ P : Process Unit, Reaches Process.move Unguarded
        (Process.create true ⟨[2, 0, 0, 0, 0, 1], rfl⟩ blankBuffers) P ∧
      P.receiver .shm = .update broadcastFrame 2 topBuffer ∧ P.Due .shm broadcastFrame.data ∧
        (P.nic .raw).freeList ≠ [] ∧
          (P.update .shm broadcastFrame 2 topBuffer).receiver .shm =
            .notify broadcastFrame 2 topBuffer) ∧
    ∃ P : Process Unit, Reaches Process.move Unguarded
        (Process.create true ⟨[2, 0, 0, 0, 0, 1], rfl⟩ blankBuffers) P ∧
      P.receiver .shm = .forward broadcastFrame 2 topBuffer (.transmit topBuffer 2) ∧
        packetQuadrant ((P.nic .raw).buffers topBuffer).wire = 0 := by
  refine ⟨?_, ?_, ?_, ?_⟩
  · have hrun : (run Process.move Unguarded
        (Process.create true ⟨[2, 0, 0, 0, 0, 1], rfl⟩ blankBuffers) eagerActions).map (fun P ↦
          (P.receiver .raw, decide ((P.handle .raw foreignFrame 2).2 = .quiet))) =
            some (.handler foreignFrame, false) := by decide +kernel
    obtain ⟨P, hP, hends⟩ := Option.map_eq_some_iff.mp hrun
    obtain ⟨hphase, hloud⟩ := Prod.mk.inj hends
    exact ⟨P, reaches_of_run eagerActions hP, hphase, not_quadrantAgrees_foreignFrame,
      fun hdrops ↦ of_decide_eq_false hloud hdrops.1⟩
  · have hrun : (run Process.move Unguarded
        (Process.create false .internal blankBuffers) orphanActions).map (fun P ↦
          (P.receiver .shm, (P.lost .shm).length)) = some (.idle, 1) := by decide +kernel
    obtain ⟨P, hP, hends⟩ := Option.map_eq_some_iff.mp hrun
    obtain ⟨hphase, hlost⟩ := Prod.mk.inj hends
    exact ⟨P, reaches_of_run orphanActions hP, hphase, hlost⟩
  · have hrun : (run Process.move Unguarded
        (Process.create true ⟨[2, 0, 0, 0, 0, 1], rfl⟩ blankBuffers) earlyRingActions).map (fun P ↦
          (P.receiver .shm, decide (P.Due .shm broadcastFrame.data), (P.nic .raw).freeList.length,
            (P.update .shm broadcastFrame 2 topBuffer).receiver .shm)) =
          some (.update broadcastFrame 2 topBuffer, true, 100,
            .notify broadcastFrame 2 topBuffer) := by decide +kernel
    obtain ⟨P, hP, hends⟩ := Option.map_eq_some_iff.mp hrun
    obtain ⟨hphase, hrest⟩ := Prod.mk.inj hends
    obtain ⟨hdue, hrest⟩ := Prod.mk.inj hrest
    obtain ⟨hfree, hnotify⟩ := Prod.mk.inj hrest
    refine ⟨P, reaches_of_run earlyRingActions hP, hphase, of_decide_eq_true hdue, ?_, hnotify⟩
    exact List.ne_nil_of_length_pos (by omega)
  · have hrun : (run Process.move Unguarded
        (Process.create true ⟨[2, 0, 0, 0, 0, 1], rfl⟩ blankBuffers) unstampedActions).map (fun P ↦
          (P.receiver .shm, packetQuadrant ((P.nic .raw).buffers topBuffer).wire)) =
            some (.forward broadcastFrame 2 topBuffer (.transmit topBuffer 2), 0) := by
      decide +kernel
    obtain ⟨P, hP, hends⟩ := Option.map_eq_some_iff.mp hrun
    obtain ⟨hphase, hquadrant⟩ := Prod.mk.inj hends
    exact ⟨P, reaches_of_run unstampedActions hP, hphase, hquadrant⟩

end VehicleComm.Channel
