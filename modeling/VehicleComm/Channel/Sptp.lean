import VehicleComm.Library.GuardedRun
import VehicleComm.Library.TwoWayTransfer

/-!
# SPTP

`sptp_protocol.h` and `clock.h`. A slave asks for the time with `send_sync_request`, keeping the
sequence number of the request and the reading `t2` of its clock in the two atomics `_pending_seq`
and `_pending_t2_ns`, and corrects its clock in `on_receive` when the answer of the master comes.

The first part has the clock and the functions of `on_receive` on the attributes of the protocol
(`Attributes`). The second part is the slave as a step function: any number of threads `τ` are
inside `send_sync_request`, each with a stack of calls, since `NIC::send` calls `request_resync`
from within `_send` when it notices a change of quadrant; and the one receive thread of the raw
socket is inside `on_receive`. Every load and store of an atomic and every reading of the clock is a
step of its own, and time may pass between any two. A request that reaches the segment is recorded
in `wire`; an answer carries the sequence number of one of them, with any timestamps, any number of
times and in any order.

Times are integers, in nanoseconds: no sum of the code leaves the range of `int64_t` while clocks
stay far from its ends. The moving average of the delay is computed in floating point; it is the
parameter `smooth`. Left out: `_running`, `_resync_requests` and the timing of the watchdog, which
only decide when a request is made (`Channel.SptpWatchdog`, `Network.QuadrantChange`), and the kinds
and lengths of packets, which are tested before the steps here (`Channel.SptpPackets`).
-/

set_option autoImplicit false
set_option relaxedAutoImplicit false

namespace VehicleComm.Channel

open Library

/-- `Cfg::MIN_OFFSET_NS`. -/
def minOffsetNs : ℤ := 100000

/-- `Cfg::MAX_OFFSET_NS`. -/
def maxOffsetNs : ℤ := 1000000000

/-- `Cfg::INITIAL_DELAY_NS`. -/
def initialDelayNs : ℤ := 100000

/-- Nanoseconds in a second. -/
def nsPerSecond : ℤ := 1000000000

/-! ### The clock -/

/-- `struct timespec`. -/
structure Timespec where
  sec : ℤ
  nsec : ℤ
deriving DecidableEq

/-- The time in nanoseconds, as `now_ns` computes it. -/
def Timespec.ns (ts : Timespec) : ℤ := ts.sec * nsPerSecond + ts.nsec

/-- A time that `clock_settime` accepts. -/
def Timespec.Normalized (ts : Timespec) : Prop :=
  0 ≤ ts.sec ∧ 0 ≤ ts.nsec ∧ ts.nsec < nsPerSecond

instance (ts : Timespec) : Decidable ts.Normalized := inferInstanceAs (Decidable (_ ∧ _ ∧ _))

/-- What `clock_gettime` returns. -/
def clockGettime (clock : ℤ) : Timespec := ⟨clock / nsPerSecond, clock % nsPerSecond⟩

/-- The clock after `clock_settime`, which fails on a time that is not normalized. -/
def clockSettime (clock : ℤ) (ts : Timespec) : ℤ := if ts.Normalized then ts.ns else clock

/-- The arithmetic of `adjust_clock_jump`. -/
def Timespec.jump (ts : Timespec) (delta : ℤ) : Timespec :=
  let total := ts.sec * nsPerSecond + ts.nsec + delta
  ⟨total.tdiv nsPerSecond, total.tmod nsPerSecond⟩

theorem clockGettime_ns (clock : ℤ) : (clockGettime clock).ns = clock := by
  simp only [Timespec.ns, clockGettime, nsPerSecond]
  omega

/-- `adjust_clock_jump` writes the time it read moved by its argument. -/
theorem Timespec.jump_ns (ts : Timespec) (delta : ℤ) : (ts.jump delta).ns = ts.ns + delta := by
  rw [Timespec.ns, Timespec.jump, Int.tdiv_mul_add_tmod, Timespec.ns]

/-- A jump to a time that is not negative is a time that `clock_settime` accepts. -/
theorem Timespec.jump_normalized {ts : Timespec} {delta : ℤ} (htotal : 0 ≤ ts.ns + delta) :
    (ts.jump delta).Normalized := by
  have hpositive : 0 < nsPerSecond := by decide
  exact ⟨Int.tdiv_nonneg htotal hpositive.le, Int.tmod_nonneg _ htotal,
    Int.tmod_lt_of_pos _ hpositive⟩

/-! ### Readings and measurements -/

/-- A reading of the local clock. Which call of `send_sync_request` made it, and after how many
corrections of the clock, is kept for the record. -/
structure Reading where
  ns : ℤ
  call : ℕ
  epoch : ℕ
deriving DecidableEq

/-- The reading `t1_prime`, made by `on_receive`. -/
structure Arrival where
  ns : ℤ
  epoch : ℕ
deriving DecidableEq

/-- What a SYNC carries: `seq_id`, the header timestamp `t1` and `t2_prime`. -/
structure SyncPacket where
  seq : ℕ
  t1 : ℤ
  t2Prime : ℤ
deriving DecidableEq

/-- `raw_offset`. -/
def rawOffset (t1Prime t1 t2Prime t2 : ℤ) : ℤ := ((t1Prime - t1) - (t2Prime - t2)).tdiv 2

/-- `raw_delay`. -/
def rawDelay (t1Prime t1 t2Prime t2 : ℤ) : ℤ := ((t1Prime - t1) + (t2Prime - t2)).tdiv 2

def isOutlier (raw : ℤ) : Bool := maxOffsetNs ≤ |raw|

def needsJump (raw : ℤ) : Bool := minOffsetNs < |raw|

/-! ### The attributes of the protocol -/

/-- The attributes of a slave that its functions read or write, its clock and its steady clock. -/
structure Attributes where
  clock : ℤ
  steady : ℤ
  currentDelay : ℤ
  currentOffset : ℤ
  pendingT2 : Reading
  pendingSeq : ℕ
  nextSeq : ℕ
  lastSyncSteady : ℤ
  firstSyncDone : Bool
  syncCount : ℕ

def Attributes.initial (clock steady : ℤ) : Attributes where
  clock := clock
  steady := steady
  currentDelay := initialDelayNs
  currentOffset := 0
  pendingT2 := ⟨0, 0, 0⟩
  pendingSeq := 0
  nextSeq := 1
  lastSyncSteady := 0
  firstSyncDone := false
  syncCount := 0

def Attributes.elapse (a : Attributes) (d : ℕ) : Attributes :=
  { a with
    clock := a.clock + d
    steady := a.steady + d }

/-- The update of the delay and, unless the measurement is an outlier, the marks for the
watchdog. -/
def Attributes.measure (smooth : ℤ → ℤ → ℤ) (a : Attributes) (raw delay : ℤ) : Attributes :=
  let measured : Attributes :=
    if 0 < delay then { a with currentDelay := smooth a.currentDelay delay } else a
  if isOutlier raw then measured
  else { measured with
    lastSyncSteady := a.steady
    firstSyncDone := true }

/-- The end of `adjust_clock_jump(-raw_offset)`, for the time it read. -/
def Attributes.jump (a : Attributes) (ts : Timespec) (raw : ℤ) : Attributes :=
  { a with clock := clockSettime a.clock (ts.jump (-raw)) }

/-- `_current_offset_ns = raw_offset` and the increment of `_sync_count`. -/
def Attributes.finish (a : Attributes) (raw : ℤ) : Attributes :=
  { a with
    currentOffset := raw
    syncCount := a.syncCount + 1 }

/-- `_pending_t2_ns.store(0)`. -/
def Attributes.clearPending (a : Attributes) : Attributes :=
  { a with pendingT2 := ⟨0, 0, 0⟩ }

/-- `on_receive` of a slave for a SYNC, with nothing else in between; `lag` is the time from the
reading of `t1_prime` to the rest. -/
def Attributes.onReceive (smooth : ℤ → ℤ → ℤ) (a : Attributes) (p : SyncPacket) (lag : ℕ) :
    Attributes :=
  let later := a.elapse lag
  let t2 := a.pendingT2.ns
  if t2 = 0 then later
  else if p.seq ≠ a.pendingSeq then later
  else
    let raw := rawOffset a.clock p.t1 p.t2Prime t2
    let measured := later.measure smooth raw (rawDelay a.clock p.t1 p.t2Prime t2)
    if isOutlier raw then measured.clearPending
    else if needsJump raw then
      ((measured.jump (clockGettime measured.clock) raw).finish raw).clearPending
    else (measured.finish raw).clearPending

/-- What `send_sync_request` stores before it calls `_send`. -/
def Attributes.storeEarly (a : Attributes) : Attributes :=
  { a with
    nextSeq := (a.nextSeq + 1) % 2 ^ 32
    pendingT2 := ⟨a.clock, 0, 0⟩
    pendingSeq := a.nextSeq }

/-- `send_sync_request`, with nothing else in between; `prep` is the time from the early reading of
`t2` to the reading that `_send` hands back. -/
def Attributes.sendSyncRequest (a : Attributes) (prep : ℕ) : Attributes :=
  let later := a.storeEarly.elapse prep
  if later.clock ≠ 0 then { later with pendingT2 := ⟨later.clock, 0, 0⟩ } else later

/-! ### The slave as a step function -/

/-- Where a call of `send_sync_request` is: before the reading of the clock for the early store of
`t2`; with that reading; before the store of `_pending_seq`; in `Protocol::send` before the buffer
is allocated; in `NIC::send` with the reading `tx_ts`, before and after the test for a change of
quadrant; and back from `_send`, with the reading unless no buffer was free. -/
inductive RequestPhase
  | readClock
  | storeT2 (early : Reading)
  | storeSeq
  | send
  | inNic (tx : Reading)
  | onEngine (tx : Reading)
  | sent (tx : Option Reading)
deriving DecidableEq

/-- A call of `send_sync_request`: its number, the sequence number it drew, and where it is. -/
structure RequestCall where
  call : ℕ
  seq : ℕ
  phase : RequestPhase
deriving DecidableEq

/-- Where the receive thread is in `on_receive`. `measure` is the computation between the two tests
of the pending request and the choice of a branch. -/
inductive ReceiverPhase
  | idle
  | readClock (p : SyncPacket)
  | loadT2 (p : SyncPacket) (t1Prime : Arrival)
  | checkSeq (p : SyncPacket) (t1Prime : Arrival) (t2 : Reading)
  | measure (p : SyncPacket) (t1Prime : Arrival) (t2 : Reading)
  | jumpRead (raw : ℤ)
  | jumpSet (raw : ℤ) (ts : Timespec)
  | finish (raw : ℤ)
  | clear
deriving DecidableEq

/-- A SYNC that passed the tests of `on_receive`, for the record. -/
structure Measurement where
  seq : ℕ
  t1Prime : Arrival
  t2 : Reading
  accepted : Bool
deriving DecidableEq

/-- The slave: the attributes, the calls of `send_sync_request` of every thread with the innermost
first, the receive thread and the requests on the segment. The record has the sequence numbers
drawn, the number of corrections of the clock, and the measurements. -/
structure Slave (τ : Type*) where
  attributes : Attributes
  calls : τ → List RequestCall
  receiver : ReceiverPhase
  wire : List ℕ
  drawn : List ℕ
  jumps : ℕ
  measurements : List Measurement

/-- One atomic step of the slave. `request` is a call of `send_sync_request` by a thread that is not
in one, `resync` the call that `NIC::send` makes within `_send`; `proceed` is the next step of the
innermost call of a thread, and `fails` that step when no buffer is free or the engine does not
send. -/
inductive SlaveAction (τ : Type*)
  | elapse (d : ℕ)
  | request (w : τ)
  | resync (w : τ)
  | proceed (w : τ)
  | fails (w : τ)
  | receive (p : SyncPacket)
  | handle

variable {τ : Type*}

def Slave.initial (τ : Type*) (clock steady : ℤ) : Slave τ where
  attributes := Attributes.initial clock steady
  calls := fun _ ↦ []
  receiver := .idle
  wire := []
  drawn := []
  jumps := 0
  measurements := []

/-- A reading of the clock by a call of `send_sync_request`. -/
def Slave.reading (s : Slave τ) (call : ℕ) : Reading := ⟨s.attributes.clock, call, s.jumps⟩

section Step

variable [DecidableEq τ]

/-- The first step of `send_sync_request`: the sequence number is drawn. -/
def Slave.draw (s : Slave τ) (w : τ) (outer : List RequestCall) : Slave τ :=
  { s with
    attributes := { s.attributes with nextSeq := (s.attributes.nextSeq + 1) % 2 ^ 32 }
    calls := Function.update s.calls w
      (⟨s.drawn.length, s.attributes.nextSeq, .readClock⟩ :: outer)
    drawn := s.drawn ++ [s.attributes.nextSeq] }

/-- The innermost call of a thread goes on to another phase. -/
def Slave.moveTo (s : Slave τ) (w : τ) (c : RequestCall) (outer : List RequestCall)
    (phase : RequestPhase) : Slave τ :=
  { s with calls := Function.update s.calls w ({ c with phase := phase } :: outer) }

/-- The end of `send_sync_request`: the store of `tx_ts`, when there is one, and the return. -/
def Slave.endCall (s : Slave τ) (w : τ) (outer : List RequestCall) (tx : Option Reading) :
    Slave τ :=
  { s with
    attributes :=
      match tx with
      | some reading =>
        if reading.ns ≠ 0 then { s.attributes with pendingT2 := reading } else s.attributes
      | none => s.attributes
    calls := Function.update s.calls w outer }

@[simp] theorem Slave.draw_calls (s : Slave τ) (w : τ) (outer : List RequestCall) :
    (s.draw w outer).calls = Function.update s.calls w
      (⟨s.drawn.length, s.attributes.nextSeq, .readClock⟩ :: outer) := rfl

@[simp] theorem Slave.draw_drawn (s : Slave τ) (w : τ) (outer : List RequestCall) :
    (s.draw w outer).drawn = s.drawn ++ [s.attributes.nextSeq] := rfl

@[simp] theorem Slave.endCall_calls (s : Slave τ) (w : τ) (outer : List RequestCall)
    (tx : Option Reading) : (s.endCall w outer tx).calls = Function.update s.calls w outer := rfl

/-- The next step of the innermost call `c` of thread `w`. -/
def Slave.callStep (s : Slave τ) (w : τ) (c : RequestCall) (outer : List RequestCall) : Slave τ :=
  match c.phase with
  | .readClock => s.moveTo w c outer (.storeT2 (s.reading c.call))
  | .storeT2 early =>
    { s.moveTo w c outer .storeSeq with
      attributes := { s.attributes with pendingT2 := early } }
  | .storeSeq =>
    { s.moveTo w c outer .send with
      attributes := { s.attributes with pendingSeq := c.seq } }
  | .send => s.moveTo w c outer (.inNic (s.reading c.call))
  | .inNic tx => s.moveTo w c outer (.onEngine tx)
  | .onEngine tx =>
    { s.moveTo w c outer (.sent (some tx)) with
      wire := s.wire ++ [c.seq] }
  | .sent tx => s.endCall w outer tx

/-- The next step of the innermost call when `_send` fails. -/
def Slave.failStep (s : Slave τ) (w : τ) (c : RequestCall) (outer : List RequestCall) :
    Option (Slave τ) :=
  match c.phase with
  | .send => some (s.moveTo w c outer (.sent none))
  | .onEngine tx => some (s.moveTo w c outer (.sent (some tx)))
  | _ => none

/-- The next step of `on_receive`. -/
def Slave.receiverStep (smooth : ℤ → ℤ → ℤ) (s : Slave τ) : Option (Slave τ) :=
  match s.receiver with
  | .idle => none
  | .readClock p =>
    some { s with receiver := .loadT2 p ⟨s.attributes.clock, s.jumps⟩ }
  | .loadT2 p t1Prime =>
    some { s with
      receiver :=
        if s.attributes.pendingT2.ns = 0 then .idle
        else .checkSeq p t1Prime s.attributes.pendingT2 }
  | .checkSeq p t1Prime t2 =>
    some { s with
      receiver := if p.seq ≠ s.attributes.pendingSeq then .idle else .measure p t1Prime t2 }
  | .measure p t1Prime t2 =>
    let raw := rawOffset t1Prime.ns p.t1 p.t2Prime t2.ns
    let delay := rawDelay t1Prime.ns p.t1 p.t2Prime t2.ns
    some { s with
      attributes := s.attributes.measure smooth raw delay
      receiver :=
        if isOutlier raw then .clear else if needsJump raw then .jumpRead raw else .finish raw
      measurements := s.measurements ++ [⟨p.seq, t1Prime, t2, !isOutlier raw⟩] }
  | .jumpRead raw =>
    some { s with receiver := .jumpSet raw (clockGettime s.attributes.clock) }
  | .jumpSet raw ts =>
    some { s with
      attributes := s.attributes.jump ts raw
      receiver := .finish raw
      jumps := s.jumps + 1 }
  | .finish raw =>
    some { s with
      attributes := s.attributes.finish raw
      receiver := .clear }
  | .clear =>
    some { s with
      attributes := s.attributes.clearPending
      receiver := .idle }

def slaveStep (smooth : ℤ → ℤ → ℤ) (s : Slave τ) : SlaveAction τ → Option (Slave τ)
  | .elapse d => some { s with attributes := s.attributes.elapse d }
  | .request w =>
    match s.calls w with
    | [] => some (s.draw w [])
    | _ :: _ => none
  | .resync w =>
    match s.calls w with
    | ⟨call, seq, .inNic tx⟩ :: outer => some (s.draw w (⟨call, seq, .onEngine tx⟩ :: outer))
    | _ => none
  | .proceed w =>
    match s.calls w with
    | [] => none
    | c :: outer => some (s.callStep w c outer)
  | .fails w =>
    match s.calls w with
    | [] => none
    | c :: outer => s.failStep w c outer
  | .receive p =>
    if s.receiver = .idle ∧ p.seq ∈ s.wire then some { s with receiver := .readClock p } else none
  | .handle => s.receiverStep smooth

end Step

end VehicleComm.Channel
