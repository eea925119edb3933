import VehicleComm.SharedMemory.Region

/-!
# The shared memory engine

`shared_memory_engine.cpp` as a step function. The registered processes attach (`engine_init`),
start their receive loop (`start_receiving`, whose body is `read_slot`), and leave (`engine_close`);
any number of threads `τ` call `write_slot`. Every wait and every post of a System V semaphore is an
atomic step of its own, and so is the code between two of them; a wait on a semaphore at zero is not
enabled. `semop` does not fail.

The program points of a process are split between its main thread (`MainPhase`) and its receive
thread (`ReaderPhase`); a writing thread is at a `WriterPhase`. `History` is a record of what
happened, which no step reads.

Left out: the identifiers of the System V objects, and the value returned by `write_slot`, which the
callers only compare with zero.
-/

set_option autoImplicit false
set_option relaxedAutoImplicit false

namespace VehicleComm.SharedMemory

/-- Where the main thread of a process is: inside `engine_init`, between it and `engine_close`, or
inside `engine_close`. -/
inductive MainPhase
  | detached
  | initLocked
  | initUnlock
  | attached
  | closePost
  | closeJoin
  | closeWait
  | closeLocked
  | closeUnlock
  | closed
deriving DecidableEq

/-- A frame that `read_slot` hands to its caller: its sequence number and its bytes. -/
structure Delivery where
  seq : ℕ
  bytes : List UInt8
deriving DecidableEq

/-- Where the receive thread of a process is. `loopTest` is the test of `_running_receiver` in
`start_receiving`, `testRunning` the one in `read_slot`; from `locked` to `unlock` the thread is
between the two mutex operations; `handler` is the call of `_on_receive`. -/
inductive ReaderPhase
  | notStarted
  | loopTest
  | waitPending
  | testRunning
  | waitMutex
  | locked
  | unlock (shouldPostEmpty : Bool) (copied : Option Delivery)
  | postEmpty (copied : Option Delivery)
  | handler (delivery : Delivery)
  | stopped
deriving DecidableEq

/-- Where a thread of process `p` is in `write_slot`; at `posting i` it is about to post the pending
semaphore of reader `i`, and past the last reader the mutex. -/
inductive WriterPhase (m : ℕ)
  | idle
  | waitEmpty (p : Fin (m + 1)) (request : WriteRequest)
  | waitMutex (p : Fin (m + 1)) (request : WriteRequest)
  | fill (p : Fin (m + 1)) (request : WriteRequest)
  | posting (i : ℕ)
deriving DecidableEq

/-- What happened in a run: the writes in the order of their sequence numbers with the process that
made each, what every reader saw in the ring, and what every receive handler was called with. -/
structure History (m : ℕ) where
  written : List (Fin (m + 1) × SlotRecord)
  consumed : Fin (m + 1) → List (ℕ × SlotRecord)
  handled : Fin (m + 1) → List Delivery

structure System (m : ℕ) (τ : Type*) where
  region : Region m
  ringMutex : ℕ
  ringEmpty : ℕ
  pending : Fin (m + 1) → ℕ
  mains : Fin (m + 1) → MainPhase
  running : Fin (m + 1) → Bool
  readers : Fin (m + 1) → ReaderPhase
  writers : τ → WriterPhase m
  history : History m

variable {m : ℕ} {τ : Type*}

/-- The state that `SharedMemoryEngine::create` leaves: a zeroed region, the mutex open and every
slot of the ring free. -/
def create (m : ℕ) (τ : Type*) : System m τ where
  region :=
    { gatewayActive := false
      components := fun _ ↦ ⟨false, 0⟩
      nextWriteSeq := 0
      slots := fun _ ↦ ⟨0, 0, 0, List.replicate shmFrameSize 0⟩ }
  ringMutex := 1
  ringEmpty := slotCount
  pending := fun _ ↦ 0
  mains := fun _ ↦ .detached
  running := fun _ ↦ false
  readers := fun _ ↦ .notStarted
  writers := fun _ ↦ .idle
  history := ⟨[], fun _ ↦ [], fun _ ↦ []⟩

/-- `should_read`: whether `read_slot` of process `i` copies the slot out. -/
def shouldRead (i : Fin (m + 1)) (slot : SlotRecord) : Bool :=
  let toComponents := slot.flags &&& deliverToComponents != 0
  let toGateway := slot.flags &&& deliverToGateway != 0
  (decide (i = gatewaySlot) && toGateway) || (toComponents && slot.writerSlot != i)

/-- What `read_slot` of process `i` copies out of the slot of sequence number `seq`. -/
def copyOut (i : Fin (m + 1)) (seq : ℕ) (slot : BroadcastSlot) : Option Delivery :=
  if shouldRead i slot.record then
    some ⟨seq, slot.frame.take (min slot.frameSize shmFrameSize)⟩
  else none

/-- Where the receive thread goes after the posts of `read_slot`: on to the next token when nothing
was copied, back to the caller otherwise, which calls the handler if the result is positive. -/
def afterRead : Option Delivery → ReaderPhase
  | none => .waitPending
  | some delivery => if delivery.bytes = [] then .loopTest else .handler delivery

/-- The next atomic step of `engine_init` of process `i`. -/
def engineInitStep (s : System m τ) (i : Fin (m + 1)) : Option (System m τ) :=
  match s.mains i with
  | .detached =>
    if 0 < s.ringMutex then
      some { s with
        ringMutex := s.ringMutex - 1
        mains := Function.update s.mains i .initLocked }
    else none
  | .initLocked =>
    some { s with
      region := s.region.attach i
      mains := Function.update s.mains i .initUnlock }
  | .initUnlock =>
    some { s with
      ringMutex := s.ringMutex + 1
      mains := Function.update s.mains i .attached }
  | _ => none

/-- `start_receiving` of process `i`. -/
def startReceiving (s : System m τ) (i : Fin (m + 1)) : Option (System m τ) :=
  if s.mains i = .attached ∧ s.readers i = .notStarted then
    some { s with
      running := Function.update s.running i true
      readers := Function.update s.readers i .loopTest }
  else none

/-- The receive thread is not running, so that `_worker.join()` returns. -/
def joinable (phase : ReaderPhase) : Bool :=
  phase = .notStarted || phase = .stopped

/-- The next atomic step of `engine_close` of process `i`. -/
def engineCloseStep (s : System m τ) (i : Fin (m + 1)) : Option (System m τ) :=
  match s.mains i with
  | .attached =>
    some { s with
      running := Function.update s.running i false
      mains := Function.update s.mains i .closePost }
  | .closePost =>
    some { s with
      pending := Function.update s.pending i (s.pending i + 1)
      mains := Function.update s.mains i .closeJoin }
  | .closeJoin =>
    if joinable (s.readers i) then some { s with mains := Function.update s.mains i .closeWait }
    else none
  | .closeWait =>
    if 0 < s.ringMutex then
      some { s with
        ringMutex := s.ringMutex - 1
        mains := Function.update s.mains i .closeLocked }
    else none
  | .closeLocked =>
    some { s with
      region := s.region.detach i
      mains := Function.update s.mains i .closeUnlock }
  | .closeUnlock =>
    some { s with
      ringMutex := s.ringMutex + 1
      mains := Function.update s.mains i .closed }
  | _ => none

/-- The next atomic step of the receive thread of process `i`: the loop of `start_receiving` around
`read_slot`. -/
def receiveStep (s : System m τ) (i : Fin (m + 1)) : Option (System m τ) :=
  match s.readers i with
  | .loopTest =>
    some { s with
      readers := Function.update s.readers i (if s.running i then .waitPending else .stopped) }
  | .waitPending =>
    if 0 < s.pending i then
      some { s with
        pending := Function.update s.pending i (s.pending i - 1)
        readers := Function.update s.readers i .testRunning }
    else none
  | .testRunning =>
    -- on `return -1` the caller tests `_running_receiver` again
    some { s with
      readers := Function.update s.readers i (if s.running i then .waitMutex else .loopTest) }
  | .waitMutex =>
    if 0 < s.ringMutex then
      some { s with
        ringMutex := s.ringMutex - 1
        readers := Function.update s.readers i .locked }
    else none
  | .locked =>
    let seq := s.region.readSeq i
    let slot := s.region.slots (slotIndex seq)
    let region := s.region.advance i
    let shouldPostEmpty := decide (region.readSeq i ≤ region.leastReadSeqNotMe i)
    some { s with
      region := region
      readers := Function.update s.readers i (.unlock shouldPostEmpty (copyOut i seq slot))
      history := { s.history with
        consumed := Function.update s.history.consumed i
          (s.history.consumed i ++ [(seq, slot.record)]) } }
  | .unlock shouldPostEmpty copied =>
    some { s with
      ringMutex := s.ringMutex + 1
      readers := Function.update s.readers i
        (if shouldPostEmpty then .postEmpty copied else afterRead copied) }
  | .postEmpty copied =>
    some { s with
      ringEmpty := s.ringEmpty + 1
      readers := Function.update s.readers i (afterRead copied) }
  | .handler delivery =>
    some { s with
      readers := Function.update s.readers i .loopTest
      history := { s.history with
        handled := Function.update s.history.handled i
          (s.history.handled i ++ [delivery]) } }
  | _ => none

/-- Process `p` has its region mapped, so that its threads get past the test of `engine_send`. -/
def MainPhase.mapped : MainPhase → Bool
  | .attached | .closePost | .closeJoin | .closeWait | .closeLocked | .closeUnlock => true
  | _ => false

/-- `engine_send` of process `p`: the arguments of its call of `write_slot`, none for an empty
frame. The gateway writes under a sentinel and to the components only, a component under its slot
and to the gateway as well. -/
def engineSend (p : Fin (m + 1)) (frame : List UInt8) (size : ℕ)
    (hreadable : min size shmFrameSize ≤ frame.length) : Option WriteRequest :=
  if size = 0 then none
  else if p = gatewaySlot then some ⟨frame, size, gatewayWriter, deliverToComponents, hreadable⟩
  else some ⟨frame, size, p, deliverToComponents ||| deliverToGateway, hreadable⟩

/-- A thread calls `write_slot` on behalf of process `p`. -/
def callWriteSlot [DecidableEq τ] (s : System m τ) (t : τ) (p : Fin (m + 1))
    (request : WriteRequest) : Option (System m τ) :=
  if s.writers t = .idle ∧ (s.mains p).mapped then
    some { s with writers := Function.update s.writers t (.waitEmpty p request) }
  else none

/-- The next atomic step of the thread `t` in `write_slot`. -/
def writeSlotStep [DecidableEq τ] (s : System m τ) (t : τ) : Option (System m τ) :=
  match s.writers t with
  | .idle => none
  | .waitEmpty p request =>
    if 0 < s.ringEmpty then
      some { s with
        ringEmpty := s.ringEmpty - 1
        writers := Function.update s.writers t (.waitMutex p request) }
    else none
  | .waitMutex p request =>
    if 0 < s.ringMutex then
      some { s with
        ringMutex := s.ringMutex - 1
        writers := Function.update s.writers t (.fill p request) }
    else none
  | .fill p request =>
    some { s with
      region := s.region.publish request
      writers := Function.update s.writers t (.posting 0)
      history := { s.history with written := s.history.written ++ [(p, request.record)] } }
  | .posting i =>
    if hi : i < m + 1 then
      some { s with
        pending := Function.update s.pending ⟨i, hi⟩ (s.pending ⟨i, hi⟩ + 1)
        writers := Function.update s.writers t (.posting (i + 1)) }
    else
      some { s with
        ringMutex := s.ringMutex + 1
        writers := Function.update s.writers t .idle }

inductive Action (m : ℕ) (τ : Type*)
  | engineInit (i : Fin (m + 1))
  | startReceiving (i : Fin (m + 1))
  | engineClose (i : Fin (m + 1))
  | receive (i : Fin (m + 1))
  | callWriteSlot (t : τ) (p : Fin (m + 1)) (request : WriteRequest)
  | writeSlot (t : τ)

def step [DecidableEq τ] (s : System m τ) : Action m τ → Option (System m τ)
  | .engineInit i => engineInitStep s i
  | .startReceiving i => SharedMemory.startReceiving s i
  | .engineClose i => engineCloseStep s i
  | .receive i => receiveStep s i
  | .callWriteSlot t p request => SharedMemory.callWriteSlot s t p request
  | .writeSlot t => writeSlotStep s t

def threeBytes (writerSlot : ℕ) (flags : UInt16) : WriteRequest :=
  ⟨[1, 2, 3], 3, writerSlot, flags, by decide⟩

end VehicleComm.SharedMemory
