import VehicleComm.Channel.Sptp

/-!
# The offset over whole runs

A master and a slave whose clocks do not drift, and exchanges one after the other: the slave sends a
request, the master answers it, and the slave handles the answer, with any delay each way. The
measured offset is the true one with half the difference of the delays, truncated toward zero
(`TimeSync.measured_eq`), so an exchange leaves the clock alone when it measures an outlier, brings
it within half the difference of the delays when it corrects it, and leaves it within the threshold
and half the bound of the delays otherwise. From the first accepted exchange on the offset stays
within that bound (`sptp_offset`).
-/

set_option autoImplicit false
set_option relaxedAutoImplicit false

namespace VehicleComm.Channel

open Library

structure TimeSync where
  master : ℤ
  slave : Attributes

/-- The offset of the slave. -/
def TimeSync.offset (s : TimeSync) : ℤ := s.slave.clock - s.master

def TimeSync.elapse (s : TimeSync) (d : ℕ) : TimeSync := ⟨s.master + d, s.slave.elapse d⟩

/-- The times of one exchange: before the request, inside `send_sync_request`, from slave to master,
at the master, from master to slave, and inside `on_receive`. -/
structure Exchange where
  gap : ℕ
  prep : ℕ
  toMaster : ℕ
  hold : ℕ
  toSlave : ℕ
  lag : ℕ

def TimeSync.request (s : TimeSync) (e : Exchange) : TimeSync :=
  let asking := s.elapse e.gap
  ⟨asking.master + e.prep, asking.slave.sendSyncRequest e.prep⟩

/-- The answer of the master to the request of `s` and the state in which it arrives: `on_receive`
of a master reads `t2_prime`, and `send_via_nic` stamps `t1`. -/
def TimeSync.answer (s : TimeSync) (e : Exchange) : SyncPacket × TimeSync :=
  let arrived := s.elapse e.toMaster
  let replying := arrived.elapse e.hold
  (⟨s.slave.pendingSeq, replying.master, arrived.master⟩, replying.elapse e.toSlave)

def TimeSync.exchange (smooth : ℤ → ℤ → ℤ) (s : TimeSync) (e : Exchange) : TimeSync :=
  let (packet, back) := (s.request e).answer e
  ⟨back.master + e.lag, back.slave.onReceive smooth packet e.lag⟩

/-- `raw_offset` of an exchange. -/
def TimeSync.measured (s : TimeSync) (e : Exchange) : ℤ :=
  let (packet, back) := (s.request e).answer e
  rawOffset back.slave.clock packet.t1 packet.t2Prime back.slave.pendingT2.ns

/-! ### The functions and the steps -/

section Alone

variable {τ : Type*} [DecidableEq τ] {smooth : ℤ → ℤ → ℤ} {s : Slave τ}

/-- Guard of a run in which only the receive thread goes on. -/
def ReceiverAlone (_ : Slave τ) : SlaveAction τ → Prop
  | .handle | .elapse _ => True
  | _ => False

/-- Guard of a run in which only the calls of one thread go on. -/
def CallerAlone (w : τ) (_ : Slave τ) : SlaveAction τ → Prop
  | .request v | .proceed v => v = w
  | .elapse _ => True
  | _ => False

/-- The receive thread alone does what `on_receive` does. -/
theorem reaches_onReceive {p : SyncPacket} (hphase : s.receiver = .readClock p) (lag : ℕ) :
    ∃ t, Reaches (slaveStep smooth) ReceiverAlone s t ∧ t.receiver = .idle ∧
      t.attributes = s.attributes.onReceive smooth p lag ∧ t.calls = s.calls := by
  have hread : slaveStep smooth s .handle =
      some { s with receiver := .loadT2 p ⟨s.attributes.clock, s.jumps⟩ } := by
    simp only [slaveStep, Slave.receiverStep, hphase]
  have hstart : Reaches (slaveStep smooth) ReceiverAlone s s := Reaches.refl s
  have hwaited := (hstart.next .handle trivial hread).next (.elapse lag) trivial rfl
  unfold Attributes.onReceive
  by_cases hzero : s.attributes.pendingT2.ns = 0
  · refine ⟨_, hwaited.next .handle trivial rfl, ?_, ?_, rfl⟩
    · exact if_pos hzero
    · exact (if_pos hzero).symm
  have hloaded := hwaited.next .handle trivial rfl
  have hkept : ¬ (s.attributes.elapse lag).pendingT2.ns = 0 := hzero
  simp only [if_neg hkept] at hloaded
  by_cases hseq : p.seq ≠ s.attributes.pendingSeq
  · refine ⟨_, hloaded.next .handle trivial rfl, if_pos hseq, ?_, rfl⟩
    rw [if_neg hzero, if_pos hseq]
  have hmatch : ¬ p.seq ≠ (s.attributes.elapse lag).pendingSeq := hseq
  have hchecked := hloaded.next .handle trivial rfl
  have hsame : (s.attributes.elapse lag).pendingT2 = s.attributes.pendingT2 := rfl
  simp only [if_neg hmatch, hsame] at hchecked
  have hmeasured := hchecked.next .handle trivial rfl
  simp only [if_neg hzero, if_neg hseq]
  generalize hraw : rawOffset s.attributes.clock p.t1 p.t2Prime s.attributes.pendingT2.ns = raw
    at hmeasured ⊢
  cases houtlier : isOutlier raw with
  | true =>
    simp only [houtlier, if_true] at hmeasured
    exact ⟨_, hmeasured.next .handle trivial rfl, rfl, by simp, rfl⟩
  | false =>
    cases hjump : needsJump raw with
    | true =>
      simp only [houtlier, hjump, if_true, Bool.false_eq_true, if_false] at hmeasured
      have hjumped := (hmeasured.next .handle trivial rfl).next .handle trivial rfl
      exact ⟨_, (hjumped.next .handle trivial rfl).next .handle trivial rfl, rfl, by simp, rfl⟩
    | false =>
      simp only [houtlier, hjump, Bool.false_eq_true, if_false] at hmeasured
      exact ⟨_, (hmeasured.next .handle trivial rfl).next .handle trivial rfl, rfl, by simp, rfl⟩

/-- The calls of one thread go on by one step. -/
theorem callerAlone_proceed {r : Slave τ} {w : τ} {c : RequestCall} {outer : List RequestCall}
    (hrun : Reaches (slaveStep smooth) (CallerAlone w) s r) (hcalls : r.calls w = c :: outer) :
    Reaches (slaveStep smooth) (CallerAlone w) s (r.callStep w c outer) :=
  hrun.next (.proceed w) rfl (by simp only [slaveStep, hcalls])

@[simp] theorem Slave.moveTo_calls (r : Slave τ) (w : τ) (c : RequestCall)
    (outer : List RequestCall) (phase : RequestPhase) :
    (r.moveTo w c outer phase).calls w = { c with phase := phase } :: outer :=
  Function.update_self ..

/-- A thread alone does what `send_sync_request` does. -/
theorem reaches_sendSyncRequest {w : τ} (hidle : s.calls w = []) (prep : ℕ) :
    ∃ t, Reaches (slaveStep smooth) (CallerAlone w) s t ∧ t.calls w = [] ∧
      t.attributes.clock = (s.attributes.sendSyncRequest prep).clock ∧
      t.attributes.pendingT2.ns = (s.attributes.sendSyncRequest prep).pendingT2.ns ∧
      t.attributes.pendingSeq = (s.attributes.sendSyncRequest prep).pendingSeq ∧
      t.attributes.nextSeq = (s.attributes.sendSyncRequest prep).nextSeq ∧
      t.wire = s.wire ++ [s.attributes.nextSeq] := by
  have hstart : Reaches (slaveStep smooth) (CallerAlone w) s s := Reaches.refl s
  have hdrawn : Reaches (slaveStep smooth) (CallerAlone w) s (s.draw w []) :=
    hstart.next (.request w) rfl (by simp only [slaveStep, hidle])
  have hread := callerAlone_proceed hdrawn (by rw [Slave.draw_calls, Function.update_self])
  have hearly := callerAlone_proceed hread (Slave.moveTo_calls ..)
  have hseq := callerAlone_proceed hearly (Slave.moveTo_calls ..)
  have hwaited := hseq.next (.elapse prep) trivial rfl
  have hstamped := callerAlone_proceed hwaited (Slave.moveTo_calls ..)
  have hunchanged := callerAlone_proceed hstamped (Slave.moveTo_calls ..)
  have hsent := callerAlone_proceed hunchanged (Slave.moveTo_calls ..)
  have hreturned := callerAlone_proceed hsent (Slave.moveTo_calls ..)
  refine ⟨_, hreturned, Function.update_self .., ?_, ?_, ?_, ?_, rfl⟩
  all_goals
    by_cases hzero : s.attributes.clock + prep = 0 <;>
      simp [Slave.callStep, Slave.moveTo, Slave.endCall, Slave.reading, Slave.draw,
        Attributes.sendSyncRequest, Attributes.storeEarly, Attributes.elapse, hzero]

end Alone

/-! ### One exchange -/

@[simp] theorem Attributes.elapse_clock (a : Attributes) (d : ℕ) :
    (a.elapse d).clock = a.clock + d := rfl

@[simp] theorem Attributes.elapse_pendingT2 (a : Attributes) (d : ℕ) :
    (a.elapse d).pendingT2 = a.pendingT2 := rfl

@[simp] theorem Attributes.elapse_pendingSeq (a : Attributes) (d : ℕ) :
    (a.elapse d).pendingSeq = a.pendingSeq := rfl

@[simp] theorem Attributes.measure_clock (smooth : ℤ → ℤ → ℤ) (a : Attributes) (raw delay : ℤ) :
    (a.measure smooth raw delay).clock = a.clock := by
  unfold measure
  split_ifs <;> rfl

theorem Attributes.measure_firstSyncDone (smooth : ℤ → ℤ → ℤ) (a : Attributes) (raw delay : ℤ) :
    (a.measure smooth raw delay).firstSyncDone = (a.firstSyncDone || !isOutlier raw) := by
  unfold measure
  split_ifs with hdelay houtlier houtlier <;> simp [houtlier]

/-- After `send_sync_request` the pending reading is that of the clock, as long as it is not zero.
-/
theorem Attributes.sendSyncRequest_spec (a : Attributes) (prep : ℕ) (hclock : a.clock + prep ≠ 0) :
    (a.sendSyncRequest prep).clock = a.clock + prep ∧
      (a.sendSyncRequest prep).pendingT2.ns = a.clock + prep ∧
      (a.sendSyncRequest prep).firstSyncDone = a.firstSyncDone := by
  have hlater : (a.storeEarly.elapse prep).clock ≠ 0 := hclock
  rw [sendSyncRequest, if_pos hlater]
  exact ⟨rfl, rfl, rfl⟩

/-- What `on_receive` does with the answer to the pending request. -/
theorem Attributes.onReceive_spec (smooth : ℤ → ℤ → ℤ) (a : Attributes) (p : SyncPacket) (lag : ℕ)
    (raw : ℤ) (hpending : a.pendingT2.ns ≠ 0) (hseq : p.seq = a.pendingSeq)
    (hraw : raw = rawOffset a.clock p.t1 p.t2Prime a.pendingT2.ns) :
    (a.onReceive smooth p lag).clock =
        (if isOutlier raw = false ∧ needsJump raw = true then
          clockSettime (a.clock + lag) ((clockGettime (a.clock + lag)).jump (-raw))
        else a.clock + lag) ∧
      (a.onReceive smooth p lag).firstSyncDone = (a.firstSyncDone || !isOutlier raw) := by
  unfold onReceive
  simp only [if_neg hpending, hseq, ne_eq, not_true_eq_false, if_false, ← hraw]
  cases houtlier : isOutlier raw with
  | true => simp [clearPending, measure_firstSyncDone, houtlier, elapse]
  | false =>
    cases hjump : needsJump raw with
    | true =>
      simp [clearPending, finish, jump, measure_firstSyncDone, houtlier, elapse]
    | false => simp [clearPending, finish, measure_firstSyncDone, houtlier, elapse]

def Exchange.total (e : Exchange) : ℕ :=
  e.gap + e.prep + e.toMaster + e.hold + e.toSlave + e.lag

/-- The difference of the delays. -/
def Exchange.skew (e : Exchange) : ℤ := e.toSlave - e.toMaster

/-- The delays are within the bound, and the clock of the slave is positive where it is read for the
request and, in a correction, where it is written. -/
structure Regular (bound : ℕ) (s : TimeSync) (e : Exchange) : Prop where
  toMaster : e.toMaster ≤ bound
  toSlave : e.toSlave ≤ bound
  asked : 0 < s.slave.clock + e.gap + e.prep
  written : |s.measured e| < maxOffsetNs → minOffsetNs < |s.measured e| →
    0 < s.slave.clock + e.total - s.measured e

/-- The measured offset is the true one with half the difference of the delays, truncated toward
zero. -/
theorem TimeSync.measured_eq {s : TimeSync} {e : Exchange}
    (hasked : 0 < s.slave.clock + e.gap + e.prep) :
    s.measured e = (2 * s.offset + e.skew).tdiv 2 := by
  obtain ⟨hclock, hpending, -⟩ := Attributes.sendSyncRequest_spec
    (s.slave.elapse e.gap) e.prep (by rw [Attributes.elapse_clock]; omega)
  simp only [measured, answer, request, elapse, rawOffset, Attributes.elapse_clock,
    Attributes.elapse_pendingT2] at hclock hpending ⊢
  rw [hclock, hpending, offset, Exchange.skew]
  congr 1
  ring

/-- What an exchange does to the two clocks and to the mark of the first synchronization. -/
theorem TimeSync.exchange_spec (smooth : ℤ → ℤ → ℤ) {s : TimeSync} {e : Exchange}
    (hasked : 0 < s.slave.clock + e.gap + e.prep) :
    (s.exchange smooth e).master = s.master + e.total ∧
      (s.exchange smooth e).slave.clock =
        (if isOutlier (s.measured e) = false ∧ needsJump (s.measured e) = true then
          clockSettime (s.slave.clock + e.total)
            ((clockGettime (s.slave.clock + e.total)).jump (-s.measured e))
        else s.slave.clock + e.total) ∧
      (s.exchange smooth e).slave.firstSyncDone =
        (s.slave.firstSyncDone || !isOutlier (s.measured e)) := by
  obtain ⟨hclock, hpending, hdone⟩ := Attributes.sendSyncRequest_spec
    (s.slave.elapse e.gap) e.prep (by rw [Attributes.elapse_clock]; omega)
  rw [Attributes.elapse_clock] at hclock hpending
  obtain ⟨hafter, hmark⟩ := Attributes.onReceive_spec smooth ((s.request e).answer e).2.slave
    ((s.request e).answer e).1 e.lag (s.measured e)
    (by
      simp only [answer, request, elapse, Attributes.elapse_pendingT2, hpending]
      omega)
    rfl rfl
  have htime : ((s.request e).answer e).2.slave.clock + e.lag = s.slave.clock + e.total := by
    simp only [answer, request, elapse, Attributes.elapse_clock, hclock, Exchange.total]
    push_cast
    ring
  refine ⟨?_, ?_, ?_⟩
  · simp only [exchange, answer, request, elapse, Exchange.total]
    push_cast
    ring
  · rw [← htime]
    exact hafter
  · have hbefore : ((s.request e).answer e).2.slave.firstSyncDone = s.slave.firstSyncDone := hdone
    rw [← hbefore]
    exact hmark

/-- The timespec that `adjust_clock_jump` writes in an exchange is one that `clock_settime` accepts,
and is the time read moved by the measured offset. -/
theorem Regular.jump_spec {bound : ℕ} {s : TimeSync} {e : Exchange} (h : Regular bound s e)
    (haccepted : |s.measured e| < maxOffsetNs) (hjump : minOffsetNs < |s.measured e|) :
    ((clockGettime (s.slave.clock + e.total)).jump (-s.measured e)).Normalized ∧
      ((clockGettime (s.slave.clock + e.total)).jump (-s.measured e)).ns =
        s.slave.clock + e.total - s.measured e := by
  have hns : ((clockGettime (s.slave.clock + e.total)).jump (-s.measured e)).ns =
      s.slave.clock + e.total - s.measured e := by
    rw [Timespec.jump_ns, clockGettime_ns, sub_eq_add_neg]
  refine ⟨Timespec.jump_normalized ?_, hns⟩
  rw [← Timespec.jump_ns, hns]
  exact (h.written haccepted hjump).le

/-! ### The three outcomes -/

section Outcomes

variable (smooth : ℤ → ℤ → ℤ) {bound : ℕ} {s : TimeSync} {e : Exchange}

/-- An outlier, and a measurement below the threshold, leave the clock alone. -/
theorem TimeSync.exchange_unchanged (h : Regular bound s e)
    (hraw : maxOffsetNs ≤ |s.measured e| ∨ |s.measured e| ≤ minOffsetNs) :
    (s.exchange smooth e).slave.clock = s.slave.clock + e.total ∧
      (s.exchange smooth e).offset = s.offset := by
  obtain ⟨hmaster, hclock, -⟩ := TimeSync.exchange_spec smooth h.asked
  have hkept : ¬ (isOutlier (s.measured e) = false ∧ needsJump (s.measured e) = true) := by
    simp only [isOutlier, needsJump, decide_eq_false_iff_not, decide_eq_true_eq, not_le]
    rintro ⟨hlow, hhigh⟩
    rcases hraw with houtlier | hsmall <;> linarith
  rw [if_neg hkept] at hclock
  refine ⟨hclock, ?_⟩
  rw [offset, hclock, hmaster, offset]
  ring

/-- A correction writes the time read moved by the measured offset, and leaves the offset within
half the difference of the delays, rounded up. -/
theorem TimeSync.exchange_corrected (h : Regular bound s e)
    (haccepted : |s.measured e| < maxOffsetNs) (hjump : minOffsetNs < |s.measured e|) :
    (s.exchange smooth e).slave.clock = s.slave.clock + e.total - s.measured e ∧
      |(s.exchange smooth e).offset| ≤ (|e.skew| + 1) / 2 := by
  obtain ⟨hmaster, hclock, -⟩ := TimeSync.exchange_spec smooth h.asked
  obtain ⟨hnormalized, hns⟩ := h.jump_spec haccepted hjump
  have hmoved : isOutlier (s.measured e) = false ∧ needsJump (s.measured e) = true := by
    simp only [isOutlier, needsJump, decide_eq_false_iff_not, decide_eq_true_eq, not_le]
    exact ⟨haccepted, hjump⟩
  rw [if_pos hmoved, clockSettime, if_pos hnormalized, hns] at hclock
  refine ⟨hclock, ?_⟩
  have hoffset : (s.exchange smooth e).offset = s.offset - s.measured e := by
    rw [offset, hclock, hmaster, offset]
    ring
  rw [hoffset, TimeSync.measured_eq h.asked]
  exact abs_sub_estimate_le s.offset e.skew

theorem Regular.abs_skew_le (h : Regular bound s e) : |e.skew| ≤ bound := by
  have htoMaster : (e.toMaster : ℤ) ≤ bound := by exact_mod_cast h.toMaster
  have htoSlave : (e.toSlave : ℤ) ≤ bound := by exact_mod_cast h.toSlave
  exact abs_sub_le_of_delays ⟨by positivity, htoSlave⟩ ⟨by positivity, htoMaster⟩

/-- Once accepted, an offset is within the threshold and half the bound of the delays. -/
def OffsetBounded (bound : ℕ) (s : TimeSync) : Prop :=
  s.slave.firstSyncDone = true → |s.offset| ≤ minOffsetNs + (bound + 1) / 2

/-- Each exchange keeps the bound. -/
theorem offsetBounded_exchange (h : Regular bound s e) (hbefore : OffsetBounded bound s) :
    OffsetBounded bound (s.exchange smooth e) := by
  intro hdone
  have hskew := h.abs_skew_le
  rcases lt_or_ge |s.measured e| maxOffsetNs with haccepted | houtlier
  · rcases lt_or_ge minOffsetNs |s.measured e| with hjump | hsmall
    · obtain ⟨-, hwithin⟩ := TimeSync.exchange_corrected smooth h haccepted hjump
      simp only [minOffsetNs]
      omega
    · obtain ⟨-, hsame⟩ := TimeSync.exchange_unchanged smooth h (Or.inr hsmall)
      rw [hsame]
      rw [TimeSync.measured_eq h.asked] at hsmall
      have hwithin := abs_le_of_estimate_le hsmall
      omega
  · obtain ⟨-, -, hmark⟩ := TimeSync.exchange_spec smooth h.asked
    obtain ⟨-, hsame⟩ := TimeSync.exchange_unchanged smooth h (Or.inl houtlier)
    have hearlier : s.slave.firstSyncDone = true := by
      rw [hmark] at hdone
      simpa [isOutlier, houtlier] using hdone
    rw [hsame]
    exact hbefore hearlier

end Outcomes

/-! ### Runs of exchanges -/

def exchangeStep (smooth : ℤ → ℤ → ℤ) (s : TimeSync) (e : Exchange) : Option TimeSync :=
  some (s.exchange smooth e)

theorem offsetBounded_of_reaches {smooth : ℤ → ℤ → ℤ} {bound : ℕ} {s t : TimeSync}
    (hrun : Reaches (exchangeStep smooth) (Regular bound) s t) (hstart : OffsetBounded bound s) :
    OffsetBounded bound t := by
  refine hrun.invariant (fun r e u hbefore hregular hstep ↦ ?_) hstart
  obtain rfl := Option.some.inj hstep
  exact offsetBounded_exchange smooth hregular hbefore

/-- The offset over whole runs. Assumes: no exchange was accepted at the start, delays of at most
`bound` each way, and clocks that stay positive. At every point of the run, if an exchange was
accepted the offset is at most the threshold and half the bound, rounded up. The next exchange, if
it measures an outlier, leaves the clock alone; if it corrects the clock, it writes a normalized
timespec that is the time read moved by the measured offset, and leaves an offset of at most half
the difference of the delays, rounded up; and otherwise leaves the clock alone. -/
theorem sptp_offset (smooth : ℤ → ℤ → ℤ) (bound : ℕ) {s t : TimeSync}
    (hrun : Reaches (exchangeStep smooth) (Regular bound) s t)
    (hstart : s.slave.firstSyncDone = false) :
    (t.slave.firstSyncDone = true → |t.offset| ≤ minOffsetNs + (bound + 1) / 2) ∧
      ∀ e, Regular bound t e →
        (maxOffsetNs ≤ |t.measured e| →
          (t.exchange smooth e).slave.clock = t.slave.clock + e.total ∧
            (t.exchange smooth e).offset = t.offset) ∧
        (|t.measured e| < maxOffsetNs → minOffsetNs < |t.measured e| →
          ((clockGettime (t.slave.clock + e.total)).jump (-t.measured e)).Normalized ∧
            ((clockGettime (t.slave.clock + e.total)).jump (-t.measured e)).ns =
              t.slave.clock + e.total - t.measured e ∧
            (t.exchange smooth e).slave.clock = t.slave.clock + e.total - t.measured e ∧
            |(t.exchange smooth e).offset| ≤ (|e.skew| + 1) / 2) ∧
        (|t.measured e| ≤ minOffsetNs →
          (t.exchange smooth e).slave.clock = t.slave.clock + e.total ∧
            (t.exchange smooth e).offset = t.offset) := by
  refine ⟨offsetBounded_of_reaches hrun fun hdone ↦ ?_, fun e hregular ↦ ⟨?_, ?_, ?_⟩⟩
  · rw [hstart] at hdone
    cases hdone
  · intro houtlier
    exact TimeSync.exchange_unchanged smooth hregular (Or.inl houtlier)
  · intro haccepted hjump
    obtain ⟨hnormalized, hns⟩ := hregular.jump_spec haccepted hjump
    obtain ⟨hclock, hwithin⟩ := TimeSync.exchange_corrected smooth hregular haccepted hjump
    exact ⟨hnormalized, hns, hclock, hwithin⟩
  · intro hsmall
    exact TimeSync.exchange_unchanged smooth hregular (Or.inr hsmall)

/-- A slave half a second ahead, and delays of 2000 and 5001 nanoseconds. -/
theorem sptp_offset_half_second :
    let s : TimeSync := ⟨10000000000, Attributes.initial 10500000000 0⟩
    let e : Exchange := ⟨0, 0, 2000, 0, 5001, 0⟩
    let t := s.exchange (fun _ delay ↦ delay) e
    Regular 6000 s e ∧ s.measured e = 500001500 ∧ t.offset = -1500 ∧
      |t.offset| ≤ minOffsetNs + (6000 + 1) / 2 := by
  intro s e t
  have hregular : Regular 6000 s e := ⟨by decide, by decide, by decide, by decide⟩
  have hrun : Reaches (exchangeStep fun _ delay ↦ delay) (Regular 6000) s t :=
    (Reaches.refl s).next e hregular rfl
  have hdone : t.slave.firstSyncDone = true := by decide
  exact ⟨hregular, by decide, by decide,
    (sptp_offset (fun _ delay ↦ delay) 6000 hrun rfl).1 hdone⟩

end VehicleComm.Channel
