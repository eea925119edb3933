import VehicleComm.Channel.BufferSteps
import VehicleComm.SharedMemory.RingSafety
import VehicleComm.SmartData.Producer

/-!
# Interests handled while responses are sent

A process with a producer on the ring of its vehicle. The receive thread of the process calls
`SmartData::update` in its handler, and reads no frame until that returns. The operations of
`Binding_Cache` hold `_mtx`; one that leaves a unit without interests destroys the `Periodic_Thread`
of the unit, and waits in `stop` for the end of the job, which sends through `write_slot`. The
reaper makes the same operations on its own. The engine and the producer are those of the modules
below, step by step; the threads of the process that are not of the cache, and all other processes,
are the other actions of the ring.

The receive thread can thus wait for a thread that waits for a slot of a ring that is full of frames
which the receive thread has not read (`WaitCycle`). It does in a run (`responder_starved`), and it
does not in the runs in which a responder it waits for is left a slot (`no_wait_cycle`).

A responder sleeps for any time. Left out are the destructors, the callbacks of the application, and
what `produce` returns.
-/

set_option autoImplicit false
set_option relaxedAutoImplicit false

namespace VehicleComm.SmartData

open Library Network Channel SharedMemory

/-- The port of the broadcast address, for which a `SmartData` is attached. -/
def broadcastPort : UInt16 := 0xFFFF

/-- What `SmartData::update` is called with for a frame of the ring: `NIC`, `Protocol` and
`Communicator` hand on the data of a frame of the protocol for the broadcast port. -/
def arrivalOf (bytes : List UInt8) : Option Arrival :=
  let message := messageOf bytes maxSize
  if h : message.fromAddress.length = 6 then
    if headerSize + packetHeaderSize ≤ bytes.length ∧ etherType bytes = proto ∧
        packetDstPort bytes = broadcastPort ∧ message.data ≠ [] then
      some ⟨⟨⟨message.fromAddress, h⟩, message.fromPort⟩, message.quadrant, message.data⟩
    else none
  else none

/-- The threads that write to the ring: the responder of a unit, and any other. -/
inductive Writer (τ : Type*)
  | responder (unit : UInt32)
  | other (t : τ)
deriving DecidableEq

inductive CacheUser
  | worker
  | reaper
deriving DecidableEq

/-- Where such a thread is: outside of the cache, at the lock of `_mtx`, before the operation, and
in the destruction of the `Periodic_Thread`s of the units that lost their interests; `joining` is
the join in `stop`. At `returning` the receive thread is about to leave its handler. -/
inductive CachePhase
  | outside
  | locking
  | operating
  | stopping (units : List UInt32)
  | joining (unit : UInt32) (rest : List UInt32)
  | returning
deriving DecidableEq

/-- Between the lock and the unlock of `_mtx`. -/
def CachePhase.holds : CachePhase → Bool
  | .operating | .stopping _ | .joining .. => true
  | _ => false

/-- Where the responder of a unit is in `Periodic_Thread::loop`: `responding` is the job up to
`write_slot`, and behind it. -/
inductive ResponderPhase
  | absent
  | loopTest
  | responding
  | writing
  | sleeping
  | ended
deriving DecidableEq

/-- A process with a producer, and the ring. `owner` is who holds `_mtx`. -/
structure Responding (m : ℕ) (τ : Type*) where
  ring : System m (Writer τ)
  producer : Producer
  owner : Option CacheUser
  users : CacheUser → CachePhase
  responders : UInt32 → ResponderPhase
  running : UInt32 → Bool

/-- One atomic step: of the ring, by a thread that is neither a responder nor in the handler; of the
handler, up to the cache and at its end; of a user of the cache; of a responder, with the arguments
of its call of `write_slot`, if it makes one. -/
inductive RespondingAction (m : ℕ) (τ : Type*)
  | ring (action : SharedMemory.Action m τ)
  | deliver
  | leave
  | proceed (user : CacheUser) (nowNs : Int64)
  | respond (unit : UInt32) (request : Option WriteRequest)

namespace Responding

variable {m : ℕ} {τ : Type*}

/-- The ring as `create` leaves it, and the producer after its constructor. -/
def initial (m : ℕ) (τ : Type*) (unit : UInt32) (lifetimeMinUs : UInt64)
    (lifetimeFactor : UInt32) : Responding m τ where
  ring := create m (Writer τ)
  producer := .initial unit lifetimeMinUs lifetimeFactor
  owner := none
  users := fun _ ↦ .outside
  responders := fun _ ↦ .absent
  running := fun _ ↦ false

/-! ### The ring -/

/-- A step of the ring by a thread that is no responder. -/
def byOther : SharedMemory.Action m τ → SharedMemory.Action m (Writer τ)
  | .engineInit i => .engineInit i
  | .startReceiving i => .startReceiving i
  | .engineClose i => .engineClose i
  | .receive i => .receive i
  | .callWriteSlot t p request => .callWriteSlot (.other t) p request
  | .writeSlot t => .writeSlot (.other t)

/-- The receive thread of process `p` would leave its handler. -/
def leavesHandler (p : Fin (m + 1)) (s : Responding m τ) : SharedMemory.Action m τ → Bool
  | .receive i =>
    match s.ring.readers p with
    | .handler _ => i = p
    | _ => false
  | _ => false

/-! ### The cache -/

def cacheAction (P : Producer) (user : CacheUser) (nowNs : Int64) : ProducerAction :=
  match user, P.handling with
  | .reaper, _ => .reap nowNs
  | .worker, .clearing _ => .clear
  | .worker, _ => .apply nowNs

/-- The thread of a unit that `resync_threads` creates. -/
def starts (C C' : BindingCache) (unit : UInt32) : Bool :=
  !C.threads.contains unit && C'.threads.contains unit

/-- The units whose threads are destroyed, in the order of `_threads`. -/
def stops (C C' : BindingCache) : List UInt32 :=
  C.threads.keys.filter fun unit ↦ !C'.threads.contains unit

/-- Where a user of the cache goes after an operation, or the receive thread from the exchange of
`_last_seen_quad`: after `clear` there is an operation to come. -/
def afterOperation (P : Producer) : CacheUser → CachePhase
  | .reaper => .outside
  | .worker => if P.handling = .idle then .returning else .locking

theorem holds_afterOperation (P : Producer) (user : CacheUser) :
    (afterOperation P user).holds = false := by
  cases user with
  | worker =>
    rw [afterOperation]
    split_ifs <;> rfl
  | reaper => rfl

/-- An operation on the cache, up to the first thread that is destroyed. -/
def operate (s : Responding m τ) (user : CacheUser) (nowNs : Int64) : Option (Responding m τ) :=
  (s.producer.step (cacheAction s.producer user nowNs)).map fun P ↦
    { s with
      producer := P
      users := Function.update s.users user (.stopping (stops s.producer.cache P.cache))
      responders := fun unit ↦
        if starts s.producer.cache P.cache unit then .loopTest else s.responders unit
      running := fun unit ↦ starts s.producer.cache P.cache unit || s.running unit }

def proceed (s : Responding m τ) (user : CacheUser) (nowNs : Int64) : Option (Responding m τ) :=
  match s.users user with
  | .outside =>
    match user with
    | .reaper => some { s with users := Function.update s.users user .locking }
    | .worker => none
  | .locking =>
    if s.owner = none then
      some { s with
        owner := some user
        users := Function.update s.users user .operating }
    else none
  | .operating => s.operate user nowNs
  | .stopping [] =>
    some { s with
      owner := none
      users := Function.update s.users user (afterOperation s.producer user) }
  | .stopping (unit :: rest) =>
    some { s with
      users := Function.update s.users user (.joining unit rest)
      running := Function.update s.running unit false }
  | .joining unit rest =>
    if s.responders unit = .ended then
      some { s with
        users := Function.update s.users user (.stopping rest)
        responders := Function.update s.responders unit .absent }
    else none
  | .returning => none

/-! ### The handler -/

/-- The message that the handler of process `p` has for the producer. -/
def handed (p : Fin (m + 1)) (s : Responding m τ) : Option Arrival :=
  match s.ring.readers p with
  | .handler delivery => arrivalOf delivery.bytes
  | _ => none

/-- The handler calls `SmartData::update`, up to the exchange of `_last_seen_quad`. -/
def deliver (p : Fin (m + 1)) (s : Responding m τ) : Option (Responding m τ) :=
  if s.users .worker = .outside then
    (s.handed p).bind fun arrival ↦
      (s.producer.step (.update arrival)).map fun P ↦
        { s with
          producer := P
          users := Function.update s.users .worker (afterOperation P .worker) }
  else none

/-- The handler returns. It has not called `SmartData::update` if the frame is not for it or the NIC
has no buffer. -/
def leave (p : Fin (m + 1)) (s : Responding m τ) : Option (Responding m τ) :=
  match s.ring.readers p, s.users .worker with
  | .handler _, .outside | .handler _, .returning =>
    (receiveStep s.ring p).map fun ring ↦
      { s with
        ring := ring
        users := Function.update s.users .worker .outside }
  | _, _ => none

/-! ### The responders -/

def moveTo (s : Responding m τ) (unit : UInt32) (phase : ResponderPhase) : Responding m τ :=
  { s with responders := Function.update s.responders unit phase }

variable [DecidableEq τ]

/-- The next atomic step of the responder of a unit. It does not call `write_slot` when there is no
buffer for the response. -/
def respond (p : Fin (m + 1)) (s : Responding m τ) (unit : UInt32)
    (request : Option WriteRequest) : Option (Responding m τ) :=
  match s.responders unit with
  | .loopTest => some (s.moveTo unit (if s.running unit then .responding else .ended))
  | .responding =>
    match request with
    | none => some (s.moveTo unit .sleeping)
    | some request =>
      if engineSend p request.frame request.size request.readable = some request then
        (callWriteSlot s.ring (.responder unit) p request).map fun ring ↦
          { s.moveTo unit .writing with ring := ring }
      else none
  | .writing =>
    (writeSlotStep s.ring (.responder unit)).map fun ring ↦
      { s.moveTo unit (if ring.writers (.responder unit) = .idle then .sleeping else .writing) with
        ring := ring }
  | .sleeping => some (s.moveTo unit .loopTest)
  | _ => none

def step (p : Fin (m + 1)) (s : Responding m τ) : RespondingAction m τ → Option (Responding m τ)
  | .ring action =>
    if s.leavesHandler p action then none
    else (SharedMemory.step s.ring (byOther action)).map fun ring ↦ { s with ring := ring }
  | .deliver => s.deliver p
  | .leave => s.leave p
  | .proceed user nowNs => s.proceed user nowNs
  | .respond unit request => s.respond p unit request

/-! ### The parts -/

/-- The engine below makes at most one step, and so does the producer. -/
theorem parts_of_step {p : Fin (m + 1)} {s t : Responding m τ} {action : RespondingAction m τ}
    (hstep : s.step p action = some t) :
    (t.ring = s.ring ∨ ∃ a, SharedMemory.step s.ring a = some t.ring) ∧
      (t.producer = s.producer ∨ ∃ a, s.producer.step a = some t.producer) := by
  cases action with
  | ring action =>
    rw [step] at hstep
    split_ifs at hstep
    obtain ⟨ring, hring, rfl⟩ := Option.map_eq_some_iff.mp hstep
    exact ⟨Or.inr ⟨_, hring⟩, Or.inl rfl⟩
  | deliver =>
    simp only [step, deliver] at hstep
    split_ifs at hstep
    obtain ⟨arrival, -, hupdate⟩ := Option.bind_eq_some_iff.mp hstep
    obtain ⟨P, hP, rfl⟩ := Option.map_eq_some_iff.mp hupdate
    exact ⟨Or.inl rfl, Or.inr ⟨_, hP⟩⟩
  | leave =>
    simp only [step, leave] at hstep
    split at hstep
    case h_3 => cases hstep
    all_goals
      obtain ⟨ring, hring, rfl⟩ := Option.map_eq_some_iff.mp hstep
      exact ⟨Or.inr ⟨.receive p, hring⟩, Or.inl rfl⟩
  | proceed user nowNs =>
    simp only [step, proceed] at hstep
    split at hstep
    case h_3 =>
      obtain ⟨P, hP, rfl⟩ := Option.map_eq_some_iff.mp hstep
      exact ⟨Or.inl rfl, Or.inr ⟨_, hP⟩⟩
    all_goals
      try split at hstep
      all_goals cases hstep
      all_goals exact ⟨Or.inl rfl, Or.inl rfl⟩
  | respond unit request =>
    simp only [step, respond] at hstep
    split at hstep
    case h_2 =>
      split at hstep
      · cases hstep
        exact ⟨Or.inl rfl, Or.inl rfl⟩
      · split_ifs at hstep
        obtain ⟨ring, hring, rfl⟩ := Option.map_eq_some_iff.mp hstep
        exact ⟨Or.inr ⟨.callWriteSlot _ _ _, hring⟩, Or.inl rfl⟩
    case h_3 =>
      obtain ⟨ring, hring, rfl⟩ := Option.map_eq_some_iff.mp hstep
      exact ⟨Or.inr ⟨.writeSlot _, hring⟩, Or.inl rfl⟩
    all_goals
      cases hstep
      try exact ⟨Or.inl rfl, Or.inl rfl⟩

/-- A run is a run of the engine and of the producer, so what is proved of those holds of it. -/
theorem parts_of_reaches {p : Fin (m + 1)}
    {guard : Responding m τ → RespondingAction m τ → Prop} {s t : Responding m τ}
    (hrun : Reaches (step p) guard s t) :
    Reaches SharedMemory.step Unguarded s.ring t.ring ∧
      Reaches Producer.step Unguarded s.producer t.producer := by
  induction hrun with
  | refl => exact ⟨Reaches.refl _, Reaches.refl _⟩
  | tail _ hlast ih =>
    obtain ⟨hring, hproducer⟩ := ih
    obtain ⟨action, -, hstep⟩ := hlast
    obtain ⟨hr, hp⟩ := parts_of_step hstep
    constructor
    · rcases hr with heq | ⟨a, ha⟩
      · rwa [heq]
      · exact hring.next a trivial ha
    · rcases hp with heq | ⟨a, ha⟩
      · rwa [heq]
      · exact hproducer.next a trivial ha

/-! ### Who waits for whom -/

/-- The responder that the receive thread waits for: it is in the join, or waits for `_mtx` while
the reaper is. -/
def awaited (s : Responding m τ) : Option UInt32 :=
  match s.users .worker, s.owner, s.users .reaper with
  | .joining unit _, _, _ => some unit
  | .locking, some .reaper, .joining unit _ => some unit
  | _, _, _ => none

omit [DecidableEq τ] in
theorem awaited_eq_some_iff {s : Responding m τ} {unit : UInt32} :
    s.awaited = some unit ↔ (∃ rest, s.users .worker = .joining unit rest) ∨
      s.users .worker = .locking ∧ s.owner = some .reaper ∧
        ∃ rest, s.users .reaper = .joining unit rest := by
  unfold awaited
  split
  case h_1 other rest hworker => simp [hworker]
  case h_2 other rest hworker howner hreaper => simp [hworker, howner, hreaper]
  case h_3 hworker hreaper =>
    refine iff_of_false (by simp) ?_
    rintro (⟨rest, h⟩ | ⟨h, howner, rest, h'⟩)
    · exact hworker unit rest h
    · exact hreaper unit rest h howner h'

/-- The thread waits on `SEM_RING_EMPTY`. -/
def needsSlot : WriterPhase m → Bool
  | .waitEmpty .. => true
  | _ => false

/-- The ring holds as many frames as it has slots which process `p` has not read. -/
def FullFor (ring : System m (Writer τ)) (p : Fin (m + 1)) : Prop :=
  ring.region.nextWriteSeq = (ring.region.readSeq p + slotCount) % 2 ^ 64

/-- The receive thread waits for a responder, and the responder waits for a slot of a ring that is
full of frames which the receive thread has not read. -/
def WaitCycle (p : Fin (m + 1)) (s : Responding m τ) : Prop :=
  ∃ unit, s.awaited = some unit ∧ s.responders unit = .writing ∧
    needsSlot (s.ring.writers (.responder unit)) = true ∧ s.ring.ringEmpty = 0 ∧ FullFor s.ring p

/-- Neither of the two can go on. -/
theorem WaitCycle.stuck {p : Fin (m + 1)} {s : Responding m τ} (h : s.WaitCycle p) :
    ∃ unit, s.awaited = some unit ∧ (∀ nowNs, s.proceed .worker nowNs = none) ∧
      ∀ request, s.respond p unit request = none := by
  obtain ⟨unit, hawaited, hphase, hneeds, hempty, -⟩ := h
  refine ⟨unit, hawaited, fun nowNs ↦ ?_, fun request ↦ ?_⟩
  · rcases awaited_eq_some_iff.mp hawaited with ⟨rest, hworker⟩ | ⟨hworker, howner, -⟩
    · simp only [proceed, hworker, hphase]
      rfl
    · simp only [proceed, hworker, howner]
      rfl
  · cases hwriter : s.ring.writers (.responder unit) with
    | waitEmpty q request =>
      simp only [respond, hphase, writeSlotStep, hwriter, hempty]
      rfl
    | _ =>
      rw [hwriter] at hneeds
      cases hneeds

/-- The responder of a unit is not on the way to a slot. -/
def PastSlot (s : Responding m τ) (unit : UInt32) : Prop :=
  s.responders unit ≠ .responding ∧ needsSlot (s.ring.writers (.responder unit)) = false

instance (s : Responding m τ) (unit : UInt32) : Decidable (s.PastSlot unit) :=
  inferInstanceAs (Decidable (_ ∧ _))

/-- A slot is left for the responder of a unit, or it does not need one. -/
def Admitted (s : Responding m τ) (unit : UInt32) : Prop :=
  s.PastSlot unit ∨ 0 < s.ring.ringEmpty

instance (s : Responding m τ) (unit : UInt32) : Decidable (s.Admitted unit) :=
  inferInstanceAs (Decidable (_ ∨ _))

def takesLast (s : Responding m τ) (w : Writer τ) : Bool :=
  needsSlot (s.ring.writers w) && s.ring.ringEmpty = 1

def stopped (s : Responding m τ) (user : CacheUser) : Option UInt32 :=
  match s.users user with
  | .stopping (unit :: _) => some unit
  | _ => none

def joined (s : Responding m τ) : Option UInt32 :=
  match s.users .reaper with
  | .joining unit _ => some unit
  | _ => none

/-- Guard of a run in which a slot is left for the responder that the receive thread waits for: the
receive thread begins to wait for a responder only when there is a slot left for it, and while it
waits no other thread takes the last slot unless the responder is past it. -/
def Reserves (p : Fin (m + 1)) (s : Responding m τ) : RespondingAction m τ → Prop
  | .ring (.writeSlot t) =>
    s.takesLast (.other t) = true → ∀ unit ∈ s.awaited, s.PastSlot unit
  | .respond other _ =>
    s.takesLast (.responder other) = true → ∀ unit ∈ s.awaited, unit ≠ other → s.PastSlot unit
  | .deliver =>
    ∀ arrival ∈ s.handed p, s.producer.handles arrival = true → ∀ unit ∈ s.joined, s.Admitted unit
  | .proceed user _ =>
    user = .worker ∨ s.users .worker = .locking → ∀ unit ∈ s.stopped user, s.Admitted unit
  | .ring _ | .leave => True

/-! ### A step of the ring -/

/-- Only a thread that gets past its wait for a slot leaves fewer free slots. -/
theorem ringEmpty_step {ring ring' : System m (Writer τ)}
    {action : SharedMemory.Action m (Writer τ)}
    (hstep : SharedMemory.step ring action = some ring') :
    ring.ringEmpty ≤ ring'.ringEmpty ∨
      ∃ w, action = .writeSlot w ∧ needsSlot (ring.writers w) = true ∧
        ring.ringEmpty = ring'.ringEmpty + 1 := by
  cases action with
  | engineInit i =>
    simp only [SharedMemory.step, engineInitStep] at hstep
    split at hstep <;> try split_ifs at hstep
    all_goals cases hstep
    all_goals exact Or.inl le_rfl
  | startReceiving i =>
    simp only [SharedMemory.step, startReceiving] at hstep
    split_ifs at hstep
    cases hstep
    exact Or.inl le_rfl
  | engineClose i =>
    simp only [SharedMemory.step, engineCloseStep] at hstep
    split at hstep <;> try split_ifs at hstep
    all_goals cases hstep
    all_goals exact Or.inl le_rfl
  | receive i =>
    simp only [SharedMemory.step, receiveStep] at hstep
    split at hstep <;> try split_ifs at hstep
    all_goals cases hstep
    all_goals first | exact Or.inl le_rfl | exact Or.inl (Nat.le_succ _)
  | callWriteSlot w q request =>
    simp only [SharedMemory.step, callWriteSlot] at hstep
    split_ifs at hstep
    cases hstep
    exact Or.inl le_rfl
  | writeSlot w =>
    cases hwriter : ring.writers w with
    | waitEmpty q request =>
      simp only [SharedMemory.step, writeSlotStep, hwriter] at hstep
      split_ifs at hstep with hfree
      cases hstep
      exact Or.inr ⟨w, rfl, by rw [hwriter]; rfl, (Nat.sub_add_cancel hfree).symm⟩
    | _ =>
      simp only [SharedMemory.step, writeSlotStep, hwriter] at hstep
      try split_ifs at hstep
      all_goals cases hstep
      all_goals exact Or.inl le_rfl

/-- The other threads leave the responders where they are. -/
theorem writers_byOther {ring ring' : System m (Writer τ)} {action : SharedMemory.Action m τ}
    (hstep : SharedMemory.step ring (byOther action) = some ring') (unit : UInt32) :
    ring'.writers (.responder unit) = ring.writers (.responder unit) := by
  cases action with
  | engineInit i => rw [(engineInitStep_frame hstep).2.2]
  | startReceiving i => rw [(startReceiving_frame hstep).2.2]
  | engineClose i => rw [(engineCloseStep_frame hstep).2.2]
  | receive i => rw [(receiveStep_frame hstep).2.2]
  | callWriteSlot t q request =>
    simp only [byOther, SharedMemory.step, callWriteSlot] at hstep
    split_ifs at hstep
    cases hstep
    simp
  | writeSlot t =>
    simp only [byOther, SharedMemory.step, writeSlotStep] at hstep
    split at hstep <;> try split_ifs at hstep
    all_goals cases hstep
    all_goals simp

/-- The thread that calls `write_slot` or goes on in it is the only one that moves. -/
theorem writers_writeSlotStep {ring ring' : System m (Writer τ)} {w other : Writer τ}
    (hstep : writeSlotStep ring w = some ring') (hother : other ≠ w) :
    ring'.writers other = ring.writers other := by
  unfold writeSlotStep at hstep
  split at hstep <;> try split_ifs at hstep
  all_goals cases hstep
  all_goals simp [hother]

/-- A thread that goes on in `write_slot` is past its wait for a slot. -/
theorem needsSlot_writeSlotStep {ring ring' : System m (Writer τ)} {w : Writer τ}
    (hstep : writeSlotStep ring w = some ring') : needsSlot (ring'.writers w) = false := by
  unfold writeSlotStep at hstep
  split at hstep <;> try split_ifs at hstep
  all_goals cases hstep
  all_goals simp [needsSlot]

/-! ### The runs that leave a slot -/

variable {p : Fin (m + 1)} {s t : Responding m τ} {unit : UInt32}

/-- What holds between any two steps of a run under `Reserves`. -/
structure SlotLeft (s : Responding m τ) : Prop where
  owned : ∀ user, (s.users user).holds = true → s.owner = some user
  halted : ∀ user unit rest, s.users user = .joining unit rest → s.running unit = false
  admitted : ∀ unit, s.awaited = some unit → s.Admitted unit

omit [DecidableEq τ] in
theorem slotLeft_initial (lifetimeMinUs : UInt64) (lifetimeFactor : UInt32) :
    (initial m τ unit lifetimeMinUs lifetimeFactor).SlotLeft where
  owned := fun user h ↦ by cases h
  halted := fun user unit rest h ↦ by cases h
  admitted := fun unit h ↦ by cases h

omit [DecidableEq τ] in
/-- A responder that the receive thread waits for does not begin its job again. -/
theorem SlotLeft.running_of_awaited (h : s.SlotLeft) (hawaited : s.awaited = some unit) :
    s.running unit = false := by
  rcases awaited_eq_some_iff.mp hawaited with ⟨rest, hworker⟩ | ⟨-, -, rest, hreaper⟩
  · exact h.halted .worker unit rest hworker
  · exact h.halted .reaper unit rest hreaper

omit [DecidableEq τ] in
/-- At most one user of the cache is between the lock and the unlock. -/
theorem SlotLeft.not_holds (h : s.SlotLeft) {user other : CacheUser} (hother : other ≠ user)
    (hholds : (s.users user).holds = true) : (s.users other).holds = false := by
  by_contra htwo
  rw [Bool.not_eq_false] at htwo
  have howner := (h.owned user hholds).symm.trans (h.owned other htwo)
  exact hother (Option.some.inj howner).symm

omit [DecidableEq τ] in
/-- A step that moves neither user of the cache. -/
theorem SlotLeft.of_users (h : s.SlotLeft) (husers : t.users = s.users)
    (howner : t.owner = s.owner) (hrunning : t.running = s.running)
    (hadmitted : ∀ unit, s.awaited = some unit → t.Admitted unit) : t.SlotLeft where
  owned := by rw [husers, howner]; exact h.owned
  halted := by rw [husers, hrunning]; exact h.halted
  admitted := by
    intro unit hawaited
    refine hadmitted unit ?_
    rw [← hawaited, awaited, awaited, husers, howner]

omit [DecidableEq τ] in
/-- A step after which nobody is in a join. -/
theorem slotLeft_of_no_join (howned : ∀ user, (t.users user).holds = true → t.owner = some user)
    (hjoin : ∀ user unit rest, t.users user ≠ .joining unit rest) : t.SlotLeft where
  owned := howned
  halted := fun user unit rest h ↦ absurd h (hjoin user unit rest)
  admitted := by
    intro unit hawaited
    rcases awaited_eq_some_iff.mp hawaited with ⟨rest, hworker⟩ | ⟨-, -, rest, hreaper⟩
    · exact absurd hworker (hjoin .worker unit rest)
    · exact absurd hreaper (hjoin .reaper unit rest)

theorem SlotLeft.ring (h : s.SlotLeft) {action : SharedMemory.Action m τ}
    (hguard : s.Reserves p (.ring action)) {ring : System m (Writer τ)}
    (hstep : SharedMemory.step s.ring (byOther action) = some ring) :
    { s with ring := ring }.SlotLeft := by
  refine h.of_users rfl rfl rfl fun unit hawaited ↦ ?_
  have hpast : s.PastSlot unit → { s with ring := ring }.PastSlot unit := fun hpast ↦
    ⟨hpast.1, by rw [writers_byOther hstep]; exact hpast.2⟩
  rcases h.admitted unit hawaited with hready | hfree
  · exact Or.inl (hpast hready)
  rcases ringEmpty_step hstep with hmore | ⟨w, hwrite, hneeds, hone⟩
  · exact Or.inr (hfree.trans_le hmore)
  by_cases hlast : s.ring.ringEmpty = 1
  · cases action with
    | writeSlot t =>
      cases hwrite
      exact Or.inl (hpast (hguard (by simp [takesLast, hneeds, hlast]) unit hawaited))
    | _ => cases hwrite
  · exact Or.inr (by show 0 < ring.ringEmpty; omega)

omit [DecidableEq τ] in
theorem Admitted.moveTo (hadmitted : s.Admitted unit) {other : UInt32} {phase : ResponderPhase}
    (hphase : unit = other → phase ≠ .responding) : (s.moveTo other phase).Admitted unit := by
  rcases hadmitted with ⟨hready, hneeds⟩ | hfree
  · refine Or.inl ⟨?_, hneeds⟩
    show Function.update s.responders other phase unit ≠ .responding
    by_cases hunit : unit = other
    · rw [hunit, Function.update_self]
      exact hphase hunit
    · rw [Function.update_of_ne hunit]
      exact hready
  · exact Or.inr hfree

/-- A responder calls `write_slot`: there is a slot left for it, or the receive thread does not wait
for it. -/
theorem SlotLeft.callWriteSlot (h : s.SlotLeft) {other : UInt32}
    (hphase : s.responders other = .responding) {q : Fin (m + 1)} {request : WriteRequest}
    {ring : System m (Writer τ)}
    (hcall : SharedMemory.callWriteSlot s.ring (.responder other) q request = some ring) :
    { s.moveTo other .writing with ring := ring }.SlotLeft := by
  unfold SharedMemory.callWriteSlot at hcall
  split_ifs at hcall
  cases hcall
  refine h.of_users rfl rfl rfl fun unit hawaited ↦ ?_
  rcases h.admitted unit hawaited with ⟨hready, hneeds⟩ | hfree
  · have hunit : unit ≠ other := fun heq ↦ hready (heq ▸ hphase)
    refine Or.inl ⟨?_, ?_⟩
    · show Function.update s.responders other .writing unit ≠ .responding
      rw [Function.update_of_ne hunit]
      exact hready
    · simp only [Function.update_of_ne (show Writer.responder unit ≠ .responder other by simpa)]
      exact hneeds
  · exact Or.inr hfree

/-- A responder goes on in `write_slot`, which brings it past its wait. -/
theorem SlotLeft.writeSlot (h : s.SlotLeft) {other : UInt32} {request : Option WriteRequest}
    (hguard : s.Reserves p (.respond other request)) {phase : ResponderPhase}
    (hphase : phase ≠ .responding) {ring : System m (Writer τ)}
    (hwrite : writeSlotStep s.ring (.responder other) = some ring) :
    { s.moveTo other phase with ring := ring }.SlotLeft := by
  refine h.of_users rfl rfl rfl fun unit hawaited ↦ ?_
  by_cases hunit : unit = other
  · subst hunit
    refine Or.inl ⟨?_, needsSlot_writeSlotStep hwrite⟩
    show Function.update s.responders unit phase unit ≠ .responding
    rw [Function.update_self]
    exact hphase
  have hwriter : ring.writers (.responder unit) = s.ring.writers (.responder unit) :=
    writers_writeSlotStep hwrite (by simpa using hunit)
  have hpast : s.PastSlot unit → { s.moveTo other phase with ring := ring }.PastSlot unit := by
    rintro ⟨hready, hneeds⟩
    refine ⟨?_, by rw [hwriter]; exact hneeds⟩
    show Function.update s.responders other phase unit ≠ .responding
    rw [Function.update_of_ne hunit]
    exact hready
  rcases h.admitted unit hawaited with hready | hfree
  · exact Or.inl (hpast hready)
  have hstep : SharedMemory.step s.ring (.writeSlot (.responder other)) = some ring := hwrite
  rcases ringEmpty_step hstep with hmore | ⟨w, hsame, hneeds, hone⟩
  · exact Or.inr (hfree.trans_le hmore)
  cases hsame
  by_cases hlast : s.ring.ringEmpty = 1
  · exact Or.inl (hpast (hguard (by simp [takesLast, hneeds, hlast]) unit hawaited hunit))
  · exact Or.inr (by show 0 < ring.ringEmpty; omega)

theorem SlotLeft.respond (h : s.SlotLeft) {other : UInt32} {request : Option WriteRequest}
    (hguard : s.Reserves p (.respond other request))
    (hstep : s.respond p other request = some t) : t.SlotLeft := by
  unfold Responding.respond at hstep
  cases hphase : s.responders other with
  | loopTest =>
    simp only [hphase] at hstep
    cases hstep
    refine h.of_users rfl rfl rfl fun unit hawaited ↦ (h.admitted unit hawaited).moveTo ?_
    rintro rfl
    rw [h.running_of_awaited hawaited]
    decide
  | responding =>
    simp only [hphase] at hstep
    cases request with
    | none =>
      cases hstep
      exact h.of_users rfl rfl rfl fun unit hawaited ↦
        (h.admitted unit hawaited).moveTo fun _ ↦ (by decide)
    | some request =>
      simp only at hstep
      split_ifs at hstep
      obtain ⟨ring, hcall, rfl⟩ := Option.map_eq_some_iff.mp hstep
      exact h.callWriteSlot hphase hcall
  | writing =>
    simp only [hphase] at hstep
    obtain ⟨ring, hwrite, rfl⟩ := Option.map_eq_some_iff.mp hstep
    refine h.writeSlot hguard ?_ hwrite
    split_ifs <;> decide
  | sleeping =>
    simp only [hphase] at hstep
    cases hstep
    exact h.of_users rfl rfl rfl fun unit hawaited ↦
      (h.admitted unit hawaited).moveTo fun _ ↦ (by decide)
  | absent | ended =>
    simp only [hphase] at hstep
    cases hstep

omit [DecidableEq τ] in
/-- A user of the cache moves while no other is between the lock and the unlock, and not into the
join. -/
theorem slotLeft_of_alone (user : CacheUser) {phase : CachePhase}
    (hothers : ∀ other, other ≠ user → (s.users other).holds = false)
    (husers : t.users = Function.update s.users user phase)
    (hjoin : ∀ unit rest, phase ≠ .joining unit rest)
    (howner : phase.holds = true → t.owner = some user) : t.SlotLeft := by
  refine slotLeft_of_no_join (fun other hholds ↦ ?_) fun other unit rest hphase ↦ ?_
  · rw [husers] at hholds
    by_cases hother : other = user
    · rw [hother, Function.update_self] at hholds
      rw [hother]
      exact howner hholds
    · rw [Function.update_of_ne hother, hothers other hother] at hholds
      cases hholds
  · rw [husers] at hphase
    by_cases hother : other = user
    · rw [hother, Function.update_self] at hphase
      exact hjoin unit rest hphase
    · rw [Function.update_of_ne hother] at hphase
      have hholds := hothers other hother
      rw [hphase] at hholds
      cases hholds

omit [DecidableEq τ] in
/-- The reaper comes to the lock. -/
theorem SlotLeft.reap (h : s.SlotLeft) :
    { s with users := Function.update s.users .reaper .locking }.SlotLeft where
  owned := by
    intro user hholds
    cases user with
    | worker => exact h.owned .worker hholds
    | reaper => cases hholds
  halted := by
    intro user unit rest hphase
    cases user with
    | worker => exact h.halted .worker unit rest hphase
    | reaper => cases hphase
  admitted := by
    intro unit hawaited
    rcases awaited_eq_some_iff.mp hawaited with hworker | ⟨-, -, rest, hreaper⟩
    · exact h.admitted unit (awaited_eq_some_iff.mpr (Or.inl hworker))
    · cases hreaper

omit [DecidableEq τ] in
/-- A responder is told to stop: if the receive thread waits for it, a slot is left for it. -/
theorem SlotLeft.stop (h : s.SlotLeft) {user : CacheUser} {nowNs : Int64}
    (hguard : s.Reserves p (.proceed user nowNs)) {rest : List UInt32}
    (hphase : s.users user = .stopping (unit :: rest)) :
    { s with
      users := Function.update s.users user (.joining unit rest)
      running := Function.update s.running unit false }.SlotLeft where
  owned := by
    intro other hholds
    by_cases hother : other = user
    · rw [hother]
      exact h.owned user (by rw [hphase]; rfl)
    · exact h.owned other (by simpa only [Function.update_of_ne hother] using hholds)
  halted := by
    intro other unit' rest' hjoining
    by_cases hother : other = user
    · rw [hother] at hjoining
      simp only [Function.update_self, CachePhase.joining.injEq] at hjoining
      rw [← hjoining.1]
      exact Function.update_self ..
    · have hholds := h.not_holds hother (by rw [hphase]; rfl)
      simp only [Function.update_of_ne hother] at hjoining
      rw [hjoining] at hholds
      cases hholds
  admitted := by
    intro unit' hawaited
    have hleft : user = .worker ∨ s.users .worker = .locking → s.Admitted unit := fun hwaits ↦
      hguard hwaits unit (by rw [stopped, hphase]; rfl)
    rcases awaited_eq_some_iff.mp hawaited with ⟨rest', hworker⟩ | ⟨hworker, -, rest', hreaper⟩
    · cases user with
      | worker =>
        simp only [Function.update_self, CachePhase.joining.injEq] at hworker
        rw [← hworker.1]
        exact hleft (Or.inl rfl)
      | reaper =>
        have hholds := h.not_holds (show CacheUser.worker ≠ .reaper by decide)
          (by rw [hphase]; rfl)
        rw [show s.users .worker = .joining unit' rest' from hworker] at hholds
        cases hholds
    · cases user with
      | worker => cases hworker
      | reaper =>
        simp only [Function.update_self, CachePhase.joining.injEq] at hreaper
        rw [← hreaper.1]
        exact hleft (Or.inr hworker)

omit [DecidableEq τ] in
theorem SlotLeft.proceed (h : s.SlotLeft) {user : CacheUser} {nowNs : Int64}
    (hguard : s.Reserves p (.proceed user nowNs)) (hstep : s.proceed user nowNs = some t) :
    t.SlotLeft := by
  unfold Responding.proceed at hstep
  have hothers (hholds : (s.users user).holds = true) (other : CacheUser) (hother : other ≠ user) :
      (s.users other).holds = false := h.not_holds hother hholds
  cases hphase : s.users user with
  | outside =>
    simp only [hphase] at hstep
    cases user with
    | worker => cases hstep
    | reaper =>
      cases hstep
      exact h.reap
  | locking =>
    simp only [hphase] at hstep
    split_ifs at hstep with hfree
    cases hstep
    refine slotLeft_of_alone user (fun other _ ↦ ?_) rfl (by simp) fun _ ↦ rfl
    by_contra hholds
    rw [Bool.not_eq_false] at hholds
    rw [h.owned other hholds] at hfree
    cases hfree
  | operating =>
    simp only [hphase, operate] at hstep
    obtain ⟨P, -, rfl⟩ := Option.map_eq_some_iff.mp hstep
    have hholds : (s.users user).holds = true := by rw [hphase]; rfl
    exact slotLeft_of_alone user (hothers hholds) rfl (by simp) fun _ ↦ h.owned user hholds
  | stopping units =>
    have hholds : (s.users user).holds = true := by rw [hphase]; rfl
    cases units with
    | nil =>
      simp only [hphase] at hstep
      cases hstep
      have hleaves := holds_afterOperation s.producer user
      refine slotLeft_of_alone user (hothers hholds) rfl (fun unit rest hjoin ↦ ?_) fun hagain ↦ ?_
      · rw [hjoin] at hleaves
        cases hleaves
      · rw [hleaves] at hagain
        cases hagain
    | cons unit rest =>
      simp only [hphase] at hstep
      cases hstep
      exact h.stop hguard hphase
  | joining unit rest =>
    simp only [hphase] at hstep
    split_ifs at hstep
    cases hstep
    have hholds : (s.users user).holds = true := by rw [hphase]; rfl
    exact slotLeft_of_alone user (hothers hholds) rfl (by simp) fun _ ↦ h.owned user hholds
  | returning =>
    simp only [hphase] at hstep
    cases hstep

omit [DecidableEq τ] in
/-- The handler has called `SmartData::update`, or returns. -/
theorem SlotLeft.of_worker (h : s.SlotLeft) {phase : CachePhase}
    (husers : t.users = Function.update s.users .worker phase) (howner : t.owner = s.owner)
    (hrunning : t.running = s.running) (hholds : phase.holds = false)
    (hadmitted : phase = .locking → ∀ unit ∈ s.joined, t.Admitted unit) : t.SlotLeft where
  owned := by
    intro user huser
    rw [husers] at huser
    cases user with
    | worker =>
      rw [Function.update_self, hholds] at huser
      cases huser
    | reaper =>
      rw [howner]
      exact h.owned .reaper huser
  halted := by
    intro user unit rest huser
    rw [husers] at huser
    cases user with
    | worker =>
      rw [Function.update_self] at huser
      rw [huser] at hholds
      cases hholds
    | reaper =>
      rw [hrunning]
      exact h.halted .reaper unit rest huser
  admitted := by
    intro unit hawaited
    rw [awaited_eq_some_iff, husers, Function.update_self] at hawaited
    rcases hawaited with ⟨rest, hworker⟩ | ⟨hworker, -, rest, hreaper⟩
    · rw [hworker] at hholds
      cases hholds
    · refine hadmitted hworker unit ?_
      rw [joined, show s.users .reaper = .joining unit rest from hreaper]
      rfl

omit [DecidableEq τ] in
theorem SlotLeft.deliver (h : s.SlotLeft) (hguard : s.Reserves p .deliver)
    (hstep : s.deliver p = some t) : t.SlotLeft := by
  unfold Responding.deliver at hstep
  split_ifs at hstep
  obtain ⟨arrival, harrival, hupdate⟩ := Option.bind_eq_some_iff.mp hstep
  obtain ⟨P, hP, rfl⟩ := Option.map_eq_some_iff.mp hupdate
  refine h.of_worker rfl rfl rfl (holds_afterOperation P .worker) fun hlocking unit hjoined ↦ ?_
  refine hguard arrival harrival ?_ unit hjoined
  by_contra hhandles
  -- a message that is not for the producer leaves it as it is, so that the handler returns
  rw [Producer.step] at hP
  split at hP
  · rename_i hidle
    cases hP
    rw [afterOperation, Producer.update, if_neg hhandles, if_pos hidle] at hlocking
    cases hlocking
  · cases hP

omit [DecidableEq τ] in
theorem SlotLeft.leave (h : s.SlotLeft) (hstep : s.leave p = some t) : t.SlotLeft := by
  unfold Responding.leave at hstep
  split at hstep
  case h_3 => cases hstep
  all_goals
    obtain ⟨ring, -, rfl⟩ := Option.map_eq_some_iff.mp hstep
    exact h.of_worker rfl rfl rfl rfl fun hlocking ↦ (by cases hlocking)

theorem SlotLeft.step (h : s.SlotLeft) {action : RespondingAction m τ}
    (hguard : s.Reserves p action) (hstep : s.step p action = some t) : t.SlotLeft := by
  cases action with
  | ring action =>
    rw [Responding.step] at hstep
    split_ifs at hstep
    obtain ⟨ring, hring, rfl⟩ := Option.map_eq_some_iff.mp hstep
    exact h.ring hguard hring
  | deliver => exact h.deliver hguard hstep
  | leave => exact h.leave hstep
  | proceed user nowNs => exact h.proceed hguard hstep
  | respond other request => exact h.respond hguard hstep

/-- Assumes: a run in which a slot is left for the responder that the receive thread waits for: the
receive thread begins to wait for a responder only when a slot is left for it, and while it waits no
other thread takes the last slot unless the responder is past it. The receive thread never waits for
a responder that waits for a slot of a ring that is full of frames which the receive thread has not
read. -/
theorem no_wait_cycle {lifetimeMinUs : UInt64} {lifetimeFactor : UInt32}
    (hrun : Reaches (step p) (Reserves p) (initial m τ unit lifetimeMinUs lifetimeFactor) s) :
    ¬ s.WaitCycle p := by
  rintro ⟨other, hawaited, -, hneeds, hempty, -⟩
  have h := hrun.invariant (P := SlotLeft) (fun _ _ _ h hguard hstep ↦ h.step hguard hstep)
    (slotLeft_initial lifetimeMinUs lifetimeFactor)
  rcases h.admitted other hawaited with ⟨-, hpast⟩ | hfree
  · rw [hneeds] at hpast
    cases hpast
  · omega

/-! ### A run in which no slot is left -/

/-- A frame of another vehicle, with an interest in unit 1 or the end of it. -/
def interestFrame (disinterest : UInt8) : List UInt8 :=
  etherHeader .broadcast ⟨[2, 0, 0, 0, 0, 7], rfl⟩ proto ++
    [1, 0, 0, 0, 0, 0, 0, 0, 5, 0, 0xFF, 0xFF, 0xFF, 0] ++
    [0, 1, 0, 0, 0, 10, 0, 0, 0, 0, 0, 0, 0, disinterest] ++ [0, 0]

theorem length_interestFrame (disinterest : UInt8) : (interestFrame disinterest).length = 44 := by
  simp [interestFrame, headerSize]

def interestRequest (disinterest : UInt8) : WriteRequest :=
  ⟨interestFrame disinterest, 44, gatewayWriter, deliverToComponents, by
    rw [length_interestFrame]; decide⟩

def responseRequest : WriteRequest :=
  ⟨interestFrame 0, 44, 1, deliverToComponents ||| deliverToGateway, by
    rw [length_interestFrame]; decide⟩

def attachActions : List (RespondingAction 1 Unit) :=
  List.replicate 3 (RespondingAction.ring (.engineInit gatewaySlot)) ++
  List.replicate 3 (RespondingAction.ring (.engineInit (Fin.last 1))) ++
  [RespondingAction.ring (.startReceiving gatewaySlot),
    RespondingAction.ring (.startReceiving (Fin.last 1))]

def frameActions (disinterest : UInt8) : List (RespondingAction 1 Unit) :=
  RespondingAction.ring (.callWriteSlot () gatewaySlot (interestRequest disinterest)) ::
    List.replicate 6 (RespondingAction.ring (.writeSlot ()))

def readActions (i : Fin 2) (count : ℕ) : List (RespondingAction 1 Unit) :=
  List.replicate count (.ring (.receive i))

/-- The component receives a frame and goes some steps into the cache, and the gateway reads it. -/
def handleActions (disinterest : UInt8) (count : ℕ) : List (RespondingAction 1 Unit) :=
  frameActions disinterest ++ readActions (Fin.last 1) 6 ++ readActions gatewaySlot 8 ++
    RespondingAction.deliver :: List.replicate count (RespondingAction.proceed .worker 0)

def interestActions : List (RespondingAction 1 Unit) :=
  attachActions ++ handleActions 0 3 ++ [RespondingAction.leave, RespondingAction.respond 1 none]

/-- The end of the interest comes while it does; before the responder is stopped the gateway writes
as many frames as there are slots, and reads them. -/
def starvingActions : List (RespondingAction 1 Unit) :=
  interestActions ++ handleActions 1 2 ++
    (List.replicate slotCount (frameActions 0 ++ readActions gatewaySlot 7)).flatten ++
    [RespondingAction.respond 1 (some responseRequest), RespondingAction.proceed .worker 0]

/-- The receive thread of the component waits for the responder, which waits for a slot, and nobody
but that receive thread has a frame to read. -/
theorem responder_starved :
    ∃ s : Responding 1 Unit,
      Reaches (step (Fin.last 1)) Unguarded (initial 1 Unit 1 3500000 4) s ∧
        s.WaitCycle (Fin.last 1) ∧
        s.ring.region.readSeq gatewaySlot = s.ring.region.nextWriteSeq := by
  have hrun : (run (step (Fin.last 1)) Unguarded (initial 1 Unit 1 3500000 4)
      starvingActions).map (fun s ↦
        (s.awaited, s.responders 1, needsSlot (s.ring.writers (.responder 1)),
          [s.ring.ringEmpty, s.ring.region.nextWriteSeq, s.ring.region.readSeq gatewaySlot,
            s.ring.region.readSeq (Fin.last 1)])) =
      some (some 1, .writing, true, [0, 102, 102, 2]) := by decide +kernel
  obtain ⟨s, hs, hvalues⟩ := Option.map_eq_some_iff.mp hrun
  simp only [Prod.mk.injEq, List.cons.injEq, and_true] at hvalues
  obtain ⟨hawaited, hphase, hneeds, hempty, hnext, hgateway, hread⟩ := hvalues
  refine ⟨s, reaches_of_run starvingActions hs, ⟨1, hawaited, hphase, hneeds, hempty, ?_⟩, ?_⟩
  · rw [FullFor, hnext, hread]
    decide
  · rw [hgateway, hnext]

-- the instances are those of an `Option`: the default ones try every unit
instance (p : Fin (m + 1)) (s : Responding m τ) (action : RespondingAction m τ) :
    Decidable (s.Reserves p action) :=
  match action with
  | .ring (.writeSlot t) =>
    have : Decidable (∀ unit ∈ s.awaited, s.PastSlot unit) := Option.decidableForallMem _
    inferInstanceAs (Decidable (s.takesLast (.other t) = true → _))
  | .respond other _ =>
    have : Decidable (∀ unit ∈ s.awaited, unit ≠ other → s.PastSlot unit) :=
      Option.decidableForallMem _
    inferInstanceAs (Decidable (s.takesLast (.responder other) = true → _))
  | .deliver =>
    have : Decidable (∀ unit ∈ s.joined, s.Admitted unit) := Option.decidableForallMem _
    have : Decidable (∀ arrival ∈ s.handed p, s.producer.handles arrival = true →
        ∀ unit ∈ s.joined, s.Admitted unit) := Option.decidableForallMem _
    this
  | .proceed user _ =>
    have : Decidable (∀ unit ∈ s.stopped user, s.Admitted unit) := Option.decidableForallMem _
    inferInstanceAs (Decidable (user = .worker ∨ s.users .worker = .locking → _))
  | .ring (.engineInit _) | .ring (.startReceiving _) | .ring (.engineClose _) | .ring (.receive _)
  | .ring (.callWriteSlot ..) | .leave => isTrue trivial

/-- The responder is told to stop while it is on the way to a slot, gets one, and ends. -/
def servedActions : List (RespondingAction 1 Unit) :=
  interestActions ++ handleActions 1 3 ++ RespondingAction.respond 1 (some responseRequest) ::
    List.replicate 8 (RespondingAction.respond 1 none) ++
    List.replicate 2 (RespondingAction.proceed .worker 0) ++ [RespondingAction.leave]

theorem no_wait_cycle_servedActions :
    ∃ s : Responding 1 Unit,
      run (step (Fin.last 1)) (Reserves (Fin.last 1)) (initial 1 Unit 1 3500000 4)
        servedActions = some s ∧
      s.ring.history.written.length = 3 ∧ s.responders 1 = .absent ∧
        ¬ s.WaitCycle (Fin.last 1) := by
  have hrun : (run (step (Fin.last 1)) (Reserves (Fin.last 1)) (initial 1 Unit 1 3500000 4)
      servedActions).map (fun s ↦ (s.ring.history.written.length, s.responders 1)) =
      some (3, .absent) := by decide +kernel
  obtain ⟨s, hs, hvalues⟩ := Option.map_eq_some_iff.mp hrun
  obtain ⟨hwritten, hphase⟩ := Prod.mk.inj hvalues
  exact ⟨s, hs, hwritten, hphase, no_wait_cycle (reaches_of_run servedActions hs)⟩

end Responding

end VehicleComm.SmartData
