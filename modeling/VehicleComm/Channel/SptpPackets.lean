import VehicleComm.Channel.Sptp
import VehicleComm.Library.Int64Range
import VehicleComm.Network.Frame

/-!
# SPTP packets

`on_receive` of a slave on the packets as they come: the kind, the timestamp of the header and the
bytes of the payload, with the arithmetic of the measurement on `int64_t`. Two of its four operands
come from the packet, and nothing checks them; an operation that overflows wraps here.

The measurement is the exact one if and only if the two differences between a timestamp of the
packet and a local reading are small enough (`measurement_exact_iff`), and then `on_receive` is the
function of the slave on the integers (`onPacket_eq_onReceive`). A packet that is not accepted
leaves the estimates alone, except that an outlier may go into the average of the delay
(`rejected_leaves_iff`).
-/

set_option autoImplicit false
set_option relaxedAutoImplicit false

namespace VehicleComm.Channel

open Library Network

/-! ### The measurement -/

/-- `raw_offset`, as the code computes it. -/
def measuredOffset (t1Prime t1 t2Prime t2 : Int64) : Int64 := ((t1Prime - t1) - (t2Prime - t2)) / 2

/-- `raw_delay`, as the code computes it. -/
def measuredDelay (t1Prime t1 t2Prime t2 : Int64) : Int64 := ((t1Prime - t1) + (t2Prime - t2)) / 2

/-- No operation of the measurement overflows: neither the two differences, nor their difference and
their sum, nor `llabs`; and the measurement is an outlier when the exact offset is one. -/
structure ExactMeasurement (t1Prime t1 t2Prime t2 : Int64) : Prop where
  outward : InInt64 (t1Prime.toInt - t1.toInt)
  back : InInt64 (t2Prime.toInt - t2.toInt)
  difference : InInt64 ((t1Prime.toInt - t1.toInt) - (t2Prime.toInt - t2.toInt))
  sum : InInt64 ((t1Prime.toInt - t1.toInt) + (t2Prime.toInt - t2.toInt))
  magnitude : measuredOffset t1Prime t1 t2Prime t2 ≠ Int64.minValue
  outlier : isOutlier (measuredOffset t1Prime t1 t2Prime t2).toInt =
    isOutlier (rawOffset t1Prime.toInt t1.toInt t2Prime.toInt t2.toInt)

/-- Half of a value in the range is in the range, away from its end. -/
theorem toInt_half (x : Int64) : (x / 2).toInt = x.toInt.tdiv 2 := by
  have htwo : (2 : Int64).toInt = 2 := by decide
  rw [Int64.toInt_div_of_ne_right x 2 (by decide), htwo]

/-- Without overflow the offset and the delay are exact. -/
theorem toInt_measured {t1Prime t1 t2Prime t2 : Int64}
    (houtward : InInt64 (t1Prime.toInt - t1.toInt)) (hback : InInt64 (t2Prime.toInt - t2.toInt))
    (hdifference : InInt64 ((t1Prime.toInt - t1.toInt) - (t2Prime.toInt - t2.toInt)))
    (hsum : InInt64 ((t1Prime.toInt - t1.toInt) + (t2Prime.toInt - t2.toInt))) :
    (measuredOffset t1Prime t1 t2Prime t2).toInt =
        rawOffset t1Prime.toInt t1.toInt t2Prime.toInt t2.toInt ∧
      (measuredDelay t1Prime t1 t2Prime t2).toInt =
        rawDelay t1Prime.toInt t1.toInt t2Prime.toInt t2.toInt := by
  have hfirst := (toInt_sub_iff t1Prime t1).mpr houtward
  have hsecond := (toInt_sub_iff t2Prime t2).mpr hback
  have hoffset := (toInt_sub_iff (t1Prime - t1) (t2Prime - t2)).mpr
    (by rw [hfirst, hsecond]; exact hdifference)
  have hdelay := (toInt_add_iff (t1Prime - t1) (t2Prime - t2)).mpr
    (by rw [hfirst, hsecond]; exact hsum)
  constructor
  · rw [measuredOffset, toInt_half, hoffset, hfirst, hsecond, rawOffset]
  · rw [measuredDelay, toInt_half, hdelay, hfirst, hsecond, rawDelay]

/-- The measurement is exact if and only if the two differences together stay in the range. -/
theorem measurement_exact_iff (t1Prime t1 t2Prime t2 : Int64) :
    ExactMeasurement t1Prime t1 t2Prime t2 ↔
      (t1Prime.toInt - t1.toInt) + |t2Prime.toInt - t2.toInt| < 2 ^ 63 ∧
        |t2Prime.toInt - t2.toInt| - (t1Prime.toInt - t1.toInt) ≤ 2 ^ 63 := by
  constructor
  · rintro ⟨-, -, ⟨hdifference, hdifference'⟩, ⟨hsum, hsum'⟩, -, -⟩
    rcases abs_cases (t2Prime.toInt - t2.toInt) with ⟨habs, -⟩ | ⟨habs, -⟩
    · rw [habs]
      exact ⟨by omega, by omega⟩
    · rw [habs]
      exact ⟨by omega, by omega⟩
  · rintro ⟨hupper, hlower⟩
    have hle := le_abs_self (t2Prime.toInt - t2.toInt)
    have hneg := neg_abs_le (t2Prime.toInt - t2.toInt)
    have houtward : InInt64 (t1Prime.toInt - t1.toInt) := ⟨by omega, by omega⟩
    have hback : InInt64 (t2Prime.toInt - t2.toInt) := ⟨by omega, by omega⟩
    have hdifference : InInt64 ((t1Prime.toInt - t1.toInt) - (t2Prime.toInt - t2.toInt)) :=
      ⟨by omega, by omega⟩
    have hsum : InInt64 ((t1Prime.toInt - t1.toInt) + (t2Prime.toInt - t2.toInt)) :=
      ⟨by omega, by omega⟩
    obtain ⟨hoffset, -⟩ := toInt_measured houtward hback hdifference hsum
    refine ⟨houtward, hback, hdifference, hsum, fun hmin ↦ ?_, by rw [hoffset]⟩
    -- half of a value in the range is above the least one
    have hvalue := congrArg Int64.toInt hmin
    have hleast : Int64.minValue.toInt = -2 ^ 63 := by decide
    have hlow := ((t1Prime - t1) - (t2Prime - t2)).le_toInt
    rw [measuredOffset, toInt_half, hleast, Int.tdiv_eq_ediv] at hvalue
    split_ifs at hvalue
    · omega
    · rw [Int.sign_eq_one_of_pos (by decide)] at hvalue
      omega

/-- Two timestamps 2 ^ 63 ns in the past: the exact offset is 2 ^ 63 ns, and the one that is
computed is 0, which counts as being in time. -/
theorem outlier_passes :
    ¬ExactMeasurement 1000000000000000000 (-8223372036854775808) (-8223372036854775808)
        1000000000000000000 ∧
      measuredOffset 1000000000000000000 (-8223372036854775808) (-8223372036854775808)
        1000000000000000000 = 0 ∧
      isOutlier (rawOffset 1000000000000000000 (-8223372036854775808) (-8223372036854775808)
        1000000000000000000) = true := by
  refine ⟨fun h ↦ ?_, by decide +kernel, by decide +kernel⟩
  have houtward := h.outward
  revert houtward
  decide +kernel

/-! ### The packets -/

/-- `sizeof(Sync_Payload)`. -/
def syncPayloadSize : ℕ := 12

/-- `Sync_Payload::seq_id`. -/
def syncSeqId (payload : List UInt8) : ℕ := (fromLittleEndian (slice payload 0 4)).toNat

/-- `Sync_Payload::t2_prime`. -/
def syncT2Prime (payload : List UInt8) : Int64 := (fromLittleEndian (slice payload 4 8)).toInt64

/-- A reading of the clock as the code has it. -/
def reading64 (ns : ℤ) : Int64 := Int64.ofInt ns

/-- A packet that is taken for a measurement: the answer to the pending request. -/
def Attributes.Measures (a : Attributes) (kind : PacketKind) (payload : List UInt8) : Prop :=
  kind = .sptpSync ∧ syncPayloadSize ≤ payload.length ∧ a.pendingT2.ns ≠ 0 ∧
    syncSeqId payload = a.pendingSeq

instance (a : Attributes) (kind : PacketKind) (payload : List UInt8) :
    Decidable (a.Measures kind payload) := inferInstanceAs (Decidable (_ ∧ _))

/-- `raw_offset` of a packet. -/
def Attributes.packetOffset (a : Attributes) (headerTs : Int64) (payload : List UInt8) : ℤ :=
  (measuredOffset (reading64 a.clock) headerTs (syncT2Prime payload)
    (reading64 a.pendingT2.ns)).toInt

/-- `raw_delay` of a packet. -/
def Attributes.packetDelay (a : Attributes) (headerTs : Int64) (payload : List UInt8) : ℤ :=
  (measuredDelay (reading64 a.clock) headerTs (syncT2Prime payload)
    (reading64 a.pendingT2.ns)).toInt

/-- `on_receive` of a slave for a packet, with nothing else in between; `lag` is the time from the
reading of `t1_prime` to the end. -/
def Attributes.onPacket (smooth : ℤ → ℤ → ℤ) (a : Attributes) (kind : PacketKind)
    (headerTs : Int64) (payload : List UInt8) (lag : ℕ) : Attributes :=
  let later := a.elapse lag
  if kind ≠ .sptpSync then later
  else if payload.length < syncPayloadSize then later
  else if a.pendingT2.ns = 0 then later
  else if syncSeqId payload ≠ a.pendingSeq then later
  else
    let raw := a.packetOffset headerTs payload
    let measured := later.measure smooth raw (a.packetDelay headerTs payload)
    if isOutlier raw then measured.clearPending
    else if needsJump raw then
      ((measured.jump (clockGettime measured.clock) raw).finish raw).clearPending
    else (measured.finish raw).clearPending

def Attributes.Accepts (a : Attributes) (kind : PacketKind) (headerTs : Int64)
    (payload : List UInt8) : Prop :=
  a.Measures kind payload ∧ isOutlier (a.packetOffset headerTs payload) = false

def Attributes.DropsOutlier (a : Attributes) (kind : PacketKind) (headerTs : Int64)
    (payload : List UInt8) : Prop :=
  a.Measures kind payload ∧ isOutlier (a.packetOffset headerTs payload) = true

/-- The clock and the estimates are as they were before a packet, apart from the time that
passed. -/
structure Attributes.Kept (a : Attributes) (lag : ℕ) (b : Attributes) : Prop where
  clock : b.clock = a.clock + lag
  currentDelay : b.currentDelay = a.currentDelay
  currentOffset : b.currentOffset = a.currentOffset
  syncCount : b.syncCount = a.syncCount
  firstSyncDone : b.firstSyncDone = a.firstSyncDone
  lastSyncSteady : b.lastSyncSteady = a.lastSyncSteady

variable {smooth : ℤ → ℤ → ℤ} {a : Attributes} {kind : PacketKind} {headerTs : Int64}
  {payload : List UInt8} {lag : ℕ}

/-- A packet that is not measured changes nothing. -/
theorem onPacket_of_not_measures (h : ¬a.Measures kind payload) :
    a.onPacket smooth kind headerTs payload lag = a.elapse lag := by
  unfold Attributes.onPacket
  split_ifs with hkind hsize hpending hseq
  · rfl
  · rfl
  · rfl
  · rfl
  all_goals exact absurd ⟨not_not.mp hkind, not_lt.mp hsize, hpending, not_not.mp hseq⟩ h

/-- What `on_receive` makes of a packet that is measured. -/
theorem onPacket_of_measures (h : a.Measures kind payload) :
    a.onPacket smooth kind headerTs payload lag =
      let raw := a.packetOffset headerTs payload
      let measured := (a.elapse lag).measure smooth raw (a.packetDelay headerTs payload)
      if isOutlier raw then measured.clearPending
      else if needsJump raw then
        ((measured.jump (clockGettime measured.clock) raw).finish raw).clearPending
      else (measured.finish raw).clearPending := by
  obtain ⟨hkind, hsize, hpending, hseq⟩ := h
  unfold Attributes.onPacket
  rw [if_neg (not_not.mpr hkind), if_neg (not_lt.mpr hsize), if_neg hpending,
    if_neg (not_not.mpr hseq)]

/-- Assumes: a packet that is not accepted. The clock and the estimates are as they were, and the
pending request is dropped only for an outlier, if and only if the packet is no outlier whose delay
changes the average. -/
theorem rejected_leaves_iff (smooth : ℤ → ℤ → ℤ) (a : Attributes) (kind : PacketKind)
    (headerTs : Int64) (payload : List UInt8) (lag : ℕ) (h : ¬a.Accepts kind headerTs payload) :
    (a.Kept lag (a.onPacket smooth kind headerTs payload lag) ∧
      ((a.onPacket smooth kind headerTs payload lag).pendingT2 ≠ a.pendingT2 →
        a.DropsOutlier kind headerTs payload)) ↔
      (a.DropsOutlier kind headerTs payload → 0 < a.packetDelay headerTs payload →
        smooth a.currentDelay (a.packetDelay headerTs payload) = a.currentDelay) := by
  by_cases hmeasures : a.Measures kind payload
  · have houtlier : isOutlier (a.packetOffset headerTs payload) = true := by
      by_contra hnot
      exact h ⟨hmeasures, by simpa using hnot⟩
    have hdrops : a.DropsOutlier kind headerTs payload := ⟨hmeasures, houtlier⟩
    rw [onPacket_of_measures hmeasures]
    simp only [houtlier, if_true, Attributes.measure]
    constructor
    · rintro ⟨hkept, -⟩ - hpositive
      have hdelay := hkept.currentDelay
      rw [if_pos hpositive] at hdelay
      exact hdelay
    · intro hsame
      refine ⟨?_, fun _ ↦ hdrops⟩
      split_ifs with hpositive
      · exact ⟨rfl, hsame hdrops hpositive, rfl, rfl, rfl, rfl⟩
      · exact ⟨rfl, rfl, rfl, rfl, rfl, rfl⟩
  · rw [onPacket_of_not_measures hmeasures]
    refine iff_of_true ⟨⟨rfl, rfl, rfl, rfl, rfl, rfl⟩, fun hpending ↦ absurd rfl hpending⟩ ?_
    exact fun hdrops ↦ absurd hdrops.1 hmeasures

/-- A slave that asked for the time 2 µs ago, with a clock that is four seconds behind. -/
def lateSlave : Attributes :=
  { Attributes.initial 5000002000 0 with
    pendingT2 := ⟨5000000000, 0, 0⟩
    pendingSeq := 1 }

/-- The payload of the answer: the sequence number and the time at which the master had the
request. -/
def lateAnswer : List UInt8 := octetsOf 4 1 ++ octetsOf 8 8999999500

def eighth (delay sample : ℤ) : ℤ := (7 * delay + sample).tdiv 8

/-- The answer is dropped as an outlier, and its delay is in the average. -/
theorem outlier_averaged :
    ¬lateSlave.Accepts .sptpSync 9000000000 lateAnswer ∧
      ¬lateSlave.Kept 0 (lateSlave.onPacket eighth .sptpSync 9000000000 lateAnswer 0) := by
  constructor
  · rintro ⟨-, hoffset⟩
    revert hoffset
    decide +kernel
  · intro hkept
    have hdelay := hkept.currentDelay
    revert hdelay
    decide +kernel

/-- The answer to an earlier request is not measured. -/
theorem rejected_leaves_iff_lateAnswer :
    lateSlave.Kept 0 (lateSlave.onPacket eighth .sptpSync 9000000000
      (octetsOf 4 7 ++ octetsOf 8 3) 0) := by
  have hnot : ¬lateSlave.Measures .sptpSync (octetsOf 4 7 ++ octetsOf 8 3) := by decide +kernel
  exact ((rejected_leaves_iff eighth lateSlave .sptpSync 9000000000 (octetsOf 4 7 ++ octetsOf 8 3) 0
    fun haccepts ↦ hnot haccepts.1).mpr fun hdrops ↦ absurd hdrops.1 hnot).1

theorem toInt_reading64 {ns : ℤ} (h : InInt64 ns) : (reading64 ns).toInt = ns := by
  rw [reading64, Int64.toInt_ofInt]
  exact bmod_eq_self_iff.mpr h

/-- Assumes: readings in the range of the clock, and a packet whose measurement is exact. Then
`on_receive` is the function of the slave on the integers. -/
theorem onPacket_eq_onReceive (hclock : InInt64 a.clock) (hpending : InInt64 a.pendingT2.ns)
    (hsize : syncPayloadSize ≤ payload.length)
    (hexact : ExactMeasurement (reading64 a.clock) headerTs (syncT2Prime payload)
      (reading64 a.pendingT2.ns)) :
    a.onPacket smooth .sptpSync headerTs payload lag =
      a.onReceive smooth ⟨syncSeqId payload, headerTs.toInt, (syncT2Prime payload).toInt⟩ lag := by
  obtain ⟨hoffset, hdelay⟩ :=
    toInt_measured hexact.outward hexact.back hexact.difference hexact.sum
  rw [toInt_reading64 hclock, toInt_reading64 hpending] at hoffset hdelay
  unfold Attributes.onPacket Attributes.onReceive
  rw [if_neg (not_not.mpr rfl), if_neg (not_lt.mpr hsize), Attributes.packetOffset,
    Attributes.packetDelay, hoffset, hdelay]

end VehicleComm.Channel
