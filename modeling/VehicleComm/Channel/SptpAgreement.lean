import VehicleComm.Channel.SptpAccuracy

/-!
# Synchronised vehicles stay so

From the first measurement that a slave accepts and finishes, its clock is within a bound of the
time of the masters, whatever the network does afterwards (`stays_synchronised`): a measurement that
moves the clock brings it there, one below `MIN_OFFSET_NS` finds it there, an outlier leaves it
alone. So the clocks of any two synchronised vehicles agree up to twice that bound.

The bound is made of `MIN_OFFSET_NS`, the longest delay that is measured, the longest time between
the reading and the writing of the clock, and how far the masters are apart. These four are
assumptions on the run (`WithinBounds`) and on the masters; nothing in the code bounds a delay, and
a thread may be held up between the two accesses of `adjust_clock_jump` for any time. A clock is
read at least a second after the epoch when it is corrected, so no correction, which is of less than
a second, goes before the epoch.

As in `Channel.SptpAccuracy`, all clocks advance alike, every slave makes its requests one at a time
(`ExclusiveSlaves`), and fewer than `2 ^ 32` of them. With clocks that drift the bound would have to
grow with the time since the last correction.
-/

set_option autoImplicit false
set_option relaxedAutoImplicit false

namespace VehicleComm.Channel

open Library

variable {ν μ τ : Type*} {ahead : μ → ℤ}

/-- What the guards below say of the next step of `on_receive`, for the clock of the slave. -/
def StepWithin (delay : ℤ) (gap : ℕ) (clock : ℤ) : ReceiverPhase → Prop
  | .measure p t1Prime t2 => rawDelay t1Prime.ns p.t1 p.t2Prime t2.ns ≤ delay
  | .jumpSet _ ts => nsPerSecond ≤ ts.ns ∧ clock ≤ ts.ns + gap
  | _ => True

/-- The measured delays are at most `delay`, and a clock that is at least a second from its origin
is written within `gap` of being read. -/
def HandlesWithin (delay : ℤ) (gap : ℕ) (s : SyncNetwork ν μ τ) : NetworkAction ν μ τ → Prop
  | .slave v .handle => StepWithin delay gap (s.slaves v).attributes.clock (s.slaves v).receiver
  | _ => True

/-- Guard of the runs whose requests are exclusive, with these bounds. -/
def WithinBounds (delay : ℤ) (gap : ℕ) (s : SyncNetwork ν μ τ) (action : NetworkAction ν μ τ) :
    Prop :=
  ExclusiveSlaves s action ∧ HandlesWithin delay gap s action

/-- How far the clock of a slave is ahead of a clock that is `reference` ahead of true time. -/
def SyncNetwork.lead (reference : ℤ) (s : SyncNetwork ν μ τ) (v : ν) : ℤ :=
  (s.slaves v).attributes.clock - (s.time + reference)

def leadBound (delay : ℤ) (gap : ℕ) (apart : ℤ) : ℤ := minOffsetNs + delay + apart + gap + 1

/-- What the receive thread of a slave knows of its lead. -/
def SyncNetwork.ReceiverNear (reference delay apart : ℤ) (gap : ℕ) (s : SyncNetwork ν μ τ)
    (v : ν) : Prop :=
  match (s.slaves v).receiver with
  | .jumpRead raw => |raw| < maxOffsetNs ∧ |s.lead reference v - raw| ≤ delay + apart + 1
  | .jumpSet raw ts =>
    |raw| < maxOffsetNs ∧ |s.lead reference v - raw| ≤ delay + apart + 1 ∧
      ts.ns ≤ (s.slaves v).attributes.clock
  | .finish _ => |s.lead reference v| ≤ leadBound delay gap apart
  | _ => True

/-- As long as the numbers of the requests of a slave have not wrapped: its lead is bounded once it
is synchronised, and what the receive thread knows. -/
def SyncNetwork.Near (reference delay apart : ℤ) (gap : ℕ) (s : SyncNetwork ν μ τ) (v : ν) :
    Prop :=
  (s.slaves v).drawn.length < 2 ^ 32 →
    (0 < (s.slaves v).attributes.syncCount → |s.lead reference v| ≤ leadBound delay gap apart) ∧
      s.ReceiverNear reference delay apart gap v

section Steps

variable {reference delay apart : ℤ} {gap : ℕ} {s t : SyncNetwork ν μ τ} {v : ν}

/-- The clock of the slave has moved with time only. -/
theorem SyncNetwork.Near.of_unmoved (h : s.Near reference delay apart gap v)
    (hreceiver : (t.slaves v).receiver = (s.slaves v).receiver)
    (hcount : (t.slaves v).attributes.syncCount = (s.slaves v).attributes.syncCount)
    (hdrawn : (s.slaves v).drawn.length ≤ (t.slaves v).drawn.length)
    (hclock : (s.slaves v).attributes.clock ≤ (t.slaves v).attributes.clock)
    (hrate : (t.slaves v).attributes.clock - t.time = (s.slaves v).attributes.clock - s.time) :
    t.Near reference delay apart gap v := by
  intro hbound
  obtain ⟨hsynced, hnear⟩ := h (hdrawn.trans_lt hbound)
  have hlead : t.lead reference v = s.lead reference v := by
    simp only [SyncNetwork.lead]
    omega
  refine ⟨fun hcounted ↦ ?_, ?_⟩
  · rw [hlead]
    exact hsynced (hcount ▸ hcounted)
  · unfold SyncNetwork.ReceiverNear at hnear ⊢
    rw [hreceiver, hlead]
    split
    · next hphase => rwa [hphase] at hnear
    · next hphase =>
      rw [hphase] at hnear
      exact ⟨hnear.1, hnear.2.1, hnear.2.2.trans hclock⟩
    · next hphase => rwa [hphase] at hnear
    · trivial

/-- A step of the receive thread that leaves the clock alone. -/
theorem SyncNetwork.Near.of_clock (h : s.Near reference delay apart gap v)
    (hclock : (t.slaves v).attributes.clock = (s.slaves v).attributes.clock)
    (htime : t.time = s.time) (hdrawn : (t.slaves v).drawn = (s.slaves v).drawn)
    (hcount : (t.slaves v).attributes.syncCount = (s.slaves v).attributes.syncCount)
    (hreceiver : (s.slaves v).drawn.length < 2 ^ 32 → t.lead reference v = s.lead reference v →
      t.ReceiverNear reference delay apart gap v) : t.Near reference delay apart gap v := by
  intro hbound
  rw [hdrawn] at hbound
  have hlead : t.lead reference v = s.lead reference v := by
    rw [SyncNetwork.lead, SyncNetwork.lead, hclock, htime]
  refine ⟨fun hcounted ↦ ?_, hreceiver hbound hlead⟩
  rw [hlead]
  exact (h hbound).1 (hcount ▸ hcounted)

/-- The measurement is off by the delay, and by how far the master is from the reference. -/
theorem SyncNetwork.Timed.measures_lead (htimed : s.Timed ahead)
    (hcoherent : Coherent (s.slaves v)) (hnumbered : NumberedFromOne (s.slaves v))
    (hbound : (s.slaves v).drawn.length < 2 ^ 32) (hmasters : ∀ m, |ahead m - reference| ≤ apart)
    {p : SyncPacket} {t1Prime : Arrival} {t2 : Reading}
    (hphase : (s.slaves v).receiver = .measure p t1Prime t2)
    (hdelay : rawDelay t1Prime.ns p.t1 p.t2Prime t2.ns ≤ delay) :
    |s.lead reference v - rawOffset t1Prime.ns p.t1 p.t2Prime t2.ns| ≤ delay + apart + 1 := by
  obtain ⟨reply, -, -, -, -, herror⟩ := htimed.measurement hcoherent hnumbered hbound hphase
  have hlead : s.lead reference v =
      s.offset ahead v reply.master + (ahead reply.master - reference) := by
    rw [SyncNetwork.lead, SyncNetwork.offset]
    ring
  have happart := hmasters reply.master
  calc |s.lead reference v - rawOffset t1Prime.ns p.t1 p.t2Prime t2.ns|
      ≤ |s.offset ahead v reply.master - rawOffset t1Prime.ns p.t1 p.t2Prime t2.ns| +
          |ahead reply.master - reference| := by
        rw [hlead, add_sub_right_comm]
        exact abs_add_le _ _
    _ ≤ delay + apart + 1 := by omega

/-- A measurement that does not move the clock finds it within the bound. -/
theorem lead_le_of_small {lead raw : ℤ} (herror : |lead - raw| ≤ delay + apart + 1)
    (hsmall : |raw| ≤ minOffsetNs) : |lead| ≤ leadBound delay gap apart := by
  calc |lead| = |raw + (lead - raw)| := by rw [add_sub_cancel]
    _ ≤ |raw| + |lead - raw| := abs_add_le _ _
    _ ≤ leadBound delay gap apart := by
      rw [leadBound]
      omega

/-- The clock is written. -/
theorem jump_clock {clock raw : ℤ} {ts : Timespec} (hpositive : nsPerSecond ≤ ts.ns)
    (hsmall : |raw| < maxOffsetNs) : clockSettime clock (ts.jump (-raw)) = ts.ns - raw := by
  have hle : raw ≤ |raw| := le_abs_self raw
  simp only [nsPerSecond] at hpositive
  simp only [maxOffsetNs] at hsmall
  rw [clockSettime, if_pos (Timespec.jump_normalized (by omega)), Timespec.jump_ns]
  ring

/-- The delay and the offset are computed from the four times. -/
theorem SyncNetwork.Near.measures {smooth : ℤ → ℤ → ℤ} {next : Slave τ}
    (h : s.Near reference delay apart gap v) (htimed : s.Timed ahead)
    (hcoherent : Coherent (s.slaves v)) (hnumbered : NumberedFromOne (s.slaves v))
    (hmasters : ∀ m, |ahead m - reference| ≤ apart) {p : SyncPacket} {t1Prime : Arrival}
    {t2 : Reading} (hphase : (s.slaves v).receiver = .measure p t1Prime t2)
    (hdelay : rawDelay t1Prime.ns p.t1 p.t2Prime t2.ns ≤ delay)
    (hstep : (s.slaves v).receiverStep smooth = some next) (hnext : t.slaves v = next)
    (htime : t.time = s.time) : t.Near reference delay apart gap v := by
  rw [Slave.receiverStep, hphase] at hstep
  obtain rfl := Option.some.inj hstep
  refine h.of_clock ?_ htime ?_ ?_ fun hbound hlead ↦ ?_
  · rw [hnext]
    exact (Attributes.measure_keeps smooth _ _ _).1
  · rw [hnext]
  · rw [hnext]
    exact Attributes.measure_syncCount smooth _ _ _
  · have herror := htimed.measures_lead hcoherent hnumbered hbound hmasters hphase hdelay
    simp only [SyncNetwork.ReceiverNear, hnext, hlead]
    split_ifs with houtlier hjump
    · trivial
    · exact ⟨not_le.mp fun hle ↦ houtlier (decide_eq_true hle), herror⟩
    · exact lead_le_of_small herror (not_lt.mp fun hlt ↦ hjump (decide_eq_true hlt))

/-- `adjust_clock_jump` writes the clock, which brings it within the bound. -/
theorem SyncNetwork.Near.jumps {smooth : ℤ → ℤ → ℤ} {next : Slave τ}
    (h : s.Near reference delay apart gap v) {raw : ℤ} {ts : Timespec}
    (hphase : (s.slaves v).receiver = .jumpSet raw ts) (hpositive : nsPerSecond ≤ ts.ns)
    (hsoon : (s.slaves v).attributes.clock ≤ ts.ns + gap)
    (hstep : (s.slaves v).receiverStep smooth = some next) (hnext : t.slaves v = next)
    (htime : t.time = s.time) : t.Near reference delay apart gap v := by
  rw [Slave.receiverStep, hphase] at hstep
  obtain rfl := Option.some.inj hstep
  intro hbound
  rw [hnext] at hbound
  obtain ⟨-, hnear⟩ := h hbound
  simp only [SyncNetwork.ReceiverNear, hphase] at hnear
  obtain ⟨hsmall, herror, hread⟩ := hnear
  have hlead : t.lead reference v = (s.lead reference v - raw) +
      (ts.ns - (s.slaves v).attributes.clock) := by
    rw [SyncNetwork.lead, SyncNetwork.lead, hnext, htime]
    simp only [Attributes.jump, jump_clock hpositive hsmall]
    ring
  have hlate : |ts.ns - (s.slaves v).attributes.clock| ≤ gap :=
    abs_le.mpr ⟨by omega, by omega⟩
  have hle : |t.lead reference v| ≤ leadBound delay gap apart := by
    calc |t.lead reference v|
        ≤ |s.lead reference v - raw| + |ts.ns - (s.slaves v).attributes.clock| := by
          rw [hlead]
          exact abs_add_le _ _
      _ ≤ leadBound delay gap apart := by
          simp only [leadBound, minOffsetNs]
          omega
  refine ⟨fun _ ↦ hle, ?_⟩
  simp only [SyncNetwork.ReceiverNear, hnext]
  exact hle

/-- The measurement is counted: the clock is within the bound from here on. -/
theorem SyncNetwork.Near.finishes {smooth : ℤ → ℤ → ℤ} {next : Slave τ}
    (h : s.Near reference delay apart gap v) {raw : ℤ}
    (hphase : (s.slaves v).receiver = .finish raw)
    (hstep : (s.slaves v).receiverStep smooth = some next) (hnext : t.slaves v = next)
    (htime : t.time = s.time) : t.Near reference delay apart gap v := by
  rw [Slave.receiverStep, hphase] at hstep
  obtain rfl := Option.some.inj hstep
  intro hbound
  rw [hnext] at hbound
  obtain ⟨-, hnear⟩ := h hbound
  have hlead : t.lead reference v = s.lead reference v := by
    rw [SyncNetwork.lead, SyncNetwork.lead, hnext, htime]
    rfl
  simp only [SyncNetwork.ReceiverNear, hphase] at hnear
  refine ⟨fun _ ↦ hlead ▸ hnear, ?_⟩
  simp only [SyncNetwork.ReceiverNear, hnext]

/-- The next step of `on_receive`. -/
theorem SyncNetwork.Near.handle {smooth : ℤ → ℤ → ℤ} {next : Slave τ}
    (h : s.Near reference delay apart gap v) (htimed : s.Timed ahead)
    (hcoherent : Coherent (s.slaves v)) (hnumbered : NumberedFromOne (s.slaves v))
    (hmasters : ∀ m, |ahead m - reference| ≤ apart)
    (hguard : WithinBounds delay gap s (.slave v .handle))
    (hstep : (s.slaves v).receiverStep smooth = some next) (hnext : t.slaves v = next)
    (htime : t.time = s.time) : t.Near reference delay apart gap v := by
  have hwithin : StepWithin delay gap _ _ := hguard.2
  cases hphase : (s.slaves v).receiver with
  | measure p t1Prime t2 =>
    rw [hphase] at hwithin
    exact h.measures htimed hcoherent hnumbered hmasters hphase hwithin hstep hnext htime
  | jumpSet raw ts =>
    rw [hphase] at hwithin
    exact h.jumps hphase hwithin.1 hwithin.2 hstep hnext htime
  | finish raw => exact h.finishes hphase hstep hnext htime
  | jumpRead raw =>
    rw [Slave.receiverStep, hphase] at hstep
    obtain rfl := Option.some.inj hstep
    refine h.of_clock ?_ htime ?_ ?_ fun hbound hlead ↦ ?_
    · rw [hnext]
    · rw [hnext]
    · rw [hnext]
    · have hnear := (h hbound).2
      simp only [SyncNetwork.ReceiverNear, hphase, hnext, hlead] at hnear ⊢
      exact ⟨hnear.1, hnear.2, (clockGettime_ns _).le⟩
  | readClock p =>
    rw [Slave.receiverStep, hphase] at hstep
    obtain rfl := Option.some.inj hstep
    refine h.of_clock ?_ htime ?_ ?_ fun _ _ ↦ ?_
    all_goals simp only [hnext, SyncNetwork.ReceiverNear]
  | loadT2 p t1Prime =>
    rw [Slave.receiverStep, hphase] at hstep
    obtain rfl := Option.some.inj hstep
    refine h.of_clock ?_ htime ?_ ?_ fun _ _ ↦ ?_
    all_goals simp only [hnext, SyncNetwork.ReceiverNear]
    split_ifs <;> trivial
  | checkSeq p t1Prime t2 =>
    rw [Slave.receiverStep, hphase] at hstep
    obtain rfl := Option.some.inj hstep
    refine h.of_clock ?_ htime ?_ ?_ fun _ _ ↦ ?_
    all_goals simp only [hnext, SyncNetwork.ReceiverNear]
    split_ifs <;> trivial
  | clear =>
    rw [Slave.receiverStep, hphase] at hstep
    obtain rfl := Option.some.inj hstep
    refine h.of_clock ?_ htime ?_ ?_ fun _ _ ↦ ?_
    all_goals simp only [hnext, SyncNetwork.ReceiverNear]
    all_goals rfl
  | idle =>
    rw [Slave.receiverStep, hphase] at hstep
    cases hstep

variable [DecidableEq τ] [DecidableEq ν] {smooth : ℤ → ℤ → ℤ}

/-- A step of a slave, of `v` or of another one. -/
theorem SyncNetwork.Near.slave (h : s.Near reference delay apart gap v) (htimed : s.Timed ahead)
    (hcoherent : Coherent (s.slaves v)) (hnumbered : NumberedFromOne (s.slaves v))
    (hmasters : ∀ m, |ahead m - reference| ≤ apart) {u : ν} {own : SlaveAction τ}
    (hguard : WithinBounds delay gap s (.slave u own)) (hlocal : own.isLocal = true)
    (hstep : s.slaveStep smooth u own = some t) : t.Near reference delay apart gap v := by
  obtain ⟨next, hnext, rfl⟩ := Option.map_eq_some_iff.mp hstep
  by_cases hv : v = u
  · subst hv
    by_cases hhandle : own = .handle
    · subst hhandle
      exact h.handle htimed hcoherent hnumbered hmasters hguard hnext (Function.update_self ..) rfl
    · have helapse : ∀ d, own ≠ .elapse d := by
        rintro d rfl
        cases hlocal
      have hreceive : ∀ p, own ≠ .receive p := by
        rintro p rfl
        cases hlocal
      obtain ⟨hcount, hreceiver, -, -⟩ := slaveStep_receiver_unchanged hreceive hhandle hnext
      have hclock := slaveStep_clock helapse hhandle hnext
      have hdrawn : (s.slaves v).drawn.length ≤ next.drawn.length := by
        rcases slaveStep_drawn hnext with ⟨hsame, -⟩ | ⟨hmore, -⟩
        · rw [hsame]
        · rw [hmore, List.length_append]
          exact Nat.le_add_right _ _
      refine h.of_unmoved ?_ ?_ ?_ ?_ ?_
      all_goals simp only [Function.update_self]
      · exact hreceiver
      · exact hcount
      · exact hdrawn
      · exact hclock.ge
      · rw [hclock]
  · refine h.of_unmoved ?_ ?_ ?_ ?_ ?_
    all_goals simp only [Function.update_of_ne hv, le_refl]

/-- A SYNC arrives at its slave, `v` or another one. -/
theorem SyncNetwork.Near.deliverReply (h : s.Near reference delay apart gap v) {u : ν}
    {p : SyncPacket} (hstep : s.slaveStep smooth u (.receive p) = some t) :
    t.Near reference delay apart gap v := by
  obtain ⟨next, hnext, rfl⟩ := Option.map_eq_some_iff.mp hstep
  simp only [Channel.slaveStep] at hnext
  split_ifs at hnext
  obtain rfl := Option.some.inj hnext
  by_cases hv : v = u
  · subst hv
    refine h.of_clock ?_ rfl ?_ ?_ fun _ _ ↦ ?_
    all_goals simp only [Function.update_self, SyncNetwork.ReceiverNear]
  · refine h.of_unmoved ?_ ?_ ?_ ?_ ?_
    all_goals simp only [Function.update_of_ne hv, le_refl]

variable [DecidableEq μ]

theorem SyncNetwork.Near.step {action : NetworkAction ν μ τ}
    (h : s.Near reference delay apart gap v) (htimed : s.Timed ahead)
    (hcoherent : Coherent (s.slaves v)) (hnumbered : NumberedFromOne (s.slaves v))
    (hmasters : ∀ m, |ahead m - reference| ≤ apart) (hguard : WithinBounds delay gap s action)
    (hstep : s.step smooth ahead action = some t) : t.Near reference delay apart gap v := by
  cases action with
  | elapse d =>
    obtain rfl := Option.some.inj hstep
    exact h.of_unmoved rfl rfl le_rfl (by simp [Attributes.elapse]) (by simp [Attributes.elapse])
  | slave u own =>
    simp only [SyncNetwork.step] at hstep
    split_ifs at hstep with hlocal
    exact h.slave htimed hcoherent hnumbered hmasters hguard hlocal hstep
  | deliverRequest m q =>
    simp only [SyncNetwork.step] at hstep
    split_ifs at hstep
    obtain rfl := Option.some.inj hstep
    exact h
  | deliverReply reply =>
    simp only [SyncNetwork.step] at hstep
    split_ifs at hstep
    exact h.deliverReply hstep
  | master m =>
    simp only [SyncNetwork.step, SyncNetwork.masterStep] at hstep
    split at hstep
    all_goals cases hstep
    all_goals exact h
  | masterFails m =>
    simp only [SyncNetwork.step, SyncNetwork.masterFailStep] at hstep
    split at hstep
    all_goals cases hstep
    all_goals exact h

/-- Vehicles that have synchronised stay so. Assumes: all clocks advance alike, masters that are at
most `apart` from a reference, exclusive requests (`Exclusive`), fewer than `2 ^ 32` of each slave,
measured delays of at most `delay`, and clocks that are written within `gap` of being read and read
at least a second after the epoch. In every state, a slave that has finished a measurement is within
the bound of the reference; so two of them are within twice the bound of each other. -/
theorem stays_synchronised {time : ℤ} {clock steady : ν → ℤ}
    (hmasters : ∀ m, |ahead m - reference| ≤ apart)
    (hrun : Reaches (SyncNetwork.step smooth ahead) (WithinBounds delay gap)
      (SyncNetwork.initial μ τ time clock steady) s)
    (hbound : ∀ v, (s.slaves v).drawn.length < 2 ^ 32) :
    (∀ v, 0 < (s.slaves v).attributes.syncCount →
      |s.lead reference v| ≤ leadBound delay gap apart) ∧
      ∀ v w, 0 < (s.slaves v).attributes.syncCount → 0 < (s.slaves w).attributes.syncCount →
        |(s.slaves v).attributes.clock - (s.slaves w).attributes.clock| ≤
          2 * leadBound delay gap apart := by
  have hall : (∀ v, Reaches (Channel.slaveStep smooth) Exclusive
      (Slave.initial τ (clock v) (steady v)) (s.slaves v)) ∧ s.Timed ahead ∧
        ∀ v, s.Near reference delay apart gap v := by
    refine Reaches.invariant (P := fun r : SyncNetwork ν μ τ ↦
        (∀ v, Reaches (Channel.slaveStep smooth) Exclusive
          (Slave.initial τ (clock v) (steady v)) (r.slaves v)) ∧ r.Timed ahead ∧
            ∀ v, r.Near reference delay apart gap v)
      (fun r action t hinv hguard hstep ↦ ?_) hrun
      ⟨fun v ↦ Reaches.refl _, SyncNetwork.timed_initial time clock steady,
        fun v _ ↦ ⟨(fun hcounted ↦ by cases hcounted), trivial⟩⟩
    obtain ⟨hslaves, htimed, hnear⟩ := hinv
    have hcoherent := fun v ↦ coherent_of_reaches (hslaves v)
    have hnumbered := fun v ↦ numberedFromOne_of_reaches (hslaves v)
    refine ⟨fun v ↦ ?_, htimed.step hcoherent hnumbered hguard.1 hstep, fun v ↦
      (hnear v).step htimed (hcoherent v) (hnumbered v) hmasters hguard hstep⟩
    rcases SyncNetwork.step_slave hguard.1 hstep v with hsame | ⟨own, hown, hmoved⟩
    · rw [hsame]
      exact hslaves v
    · exact (hslaves v).next own hown hmoved
  obtain ⟨-, -, hnear⟩ := hall
  have hlead : ∀ v, 0 < (s.slaves v).attributes.syncCount →
      |s.lead reference v| ≤ leadBound delay gap apart :=
    fun v hsynced ↦ (hnear v (hbound v)).1 hsynced
  refine ⟨hlead, fun v w hv hw ↦ ?_⟩
  calc |(s.slaves v).attributes.clock - (s.slaves w).attributes.clock|
      = |s.lead reference v - s.lead reference w| := by
        rw [SyncNetwork.lead, SyncNetwork.lead, sub_sub_sub_cancel_right]
    _ ≤ |s.lead reference v| + |s.lead reference w| := abs_sub _ _
    _ ≤ 2 * leadBound delay gap apart := by
        have hle := hlead v hv
        have hle' := hlead w hw
        omega

end Steps

/-! ### Two vehicles -/

instance (delay : ℤ) (gap : ℕ) (clock : ℤ) (phase : ReceiverPhase) :
    Decidable (StepWithin delay gap clock phase) :=
  match phase with
  | .measure p t1Prime t2 =>
    inferInstanceAs (Decidable (rawDelay t1Prime.ns p.t1 p.t2Prime t2.ns ≤ delay))
  | .jumpSet _ ts => inferInstanceAs (Decidable (nsPerSecond ≤ ts.ns ∧ clock ≤ ts.ns + gap))
  | .idle | .readClock _ | .loadT2 .. | .checkSeq .. | .jumpRead _ | .finish _ | .clear =>
    isTrue trivial

instance (delay : ℤ) (gap : ℕ) (s : SyncNetwork ν μ τ) (action : NetworkAction ν μ τ) :
    Decidable (HandlesWithin delay gap s action) :=
  match action with
  | .slave _ .handle => inferInstanceAs (Decidable (StepWithin delay gap _ _))
  | .slave _ (.request _) | .slave _ (.resync _) | .slave _ (.proceed _) | .slave _ (.fails _)
  | .slave _ (.elapse _) | .slave _ (.receive _) | .elapse _ | .deliverRequest .. | .deliverReply _
  | .master _ | .masterFails _ => isTrue trivial

instance [Fintype τ] (delay : ℤ) (gap : ℕ) (s : SyncNetwork ν μ τ) (action : NetworkAction ν μ τ) :
    Decidable (WithinBounds delay gap s action) :=
  inferInstanceAs (Decidable (_ ∧ _))

/-- A vehicle asks at a time, is answered, and corrects its clock. -/
def correctedActions (v : Bool) (sentAt : ℤ) : List (NetworkAction Bool Unit Unit) :=
  NetworkAction.slave v (.request ()) ::
    List.replicate 7 (NetworkAction.slave v (.proceed ())) ++
  [NetworkAction.elapse 30, NetworkAction.deliverRequest () ⟨v, 1, 0, sentAt⟩,
    NetworkAction.master (), NetworkAction.elapse 5, NetworkAction.master (),
    NetworkAction.master (), NetworkAction.master (), NetworkAction.elapse 50,
    NetworkAction.deliverReply ⟨v, ⟨1, 2000000035 + sentAt, 2000000030 + sentAt⟩, ()⟩] ++
  List.replicate 5 (NetworkAction.slave v .handle) ++ [NetworkAction.elapse 7] ++
  List.replicate 3 (NetworkAction.slave v .handle)

/-- The clock of one vehicle is ahead of the clock of the master, that of the other behind it. -/
def aroundInitial : SyncNetwork Bool Unit Unit :=
  SyncNetwork.initial Unit Unit 0 (fun v ↦ if v then 2003000000 else 1995000000) fun _ ↦ 0

/-- Both have corrected their clocks, so that these agree. -/
theorem stays_synchronised_corrected :
    ∃ s, run (SyncNetwork.step eighths fun _ ↦ 2000000000) (WithinBounds 40 7) aroundInitial
        (correctedActions true 0 ++ correctedActions false 92) = some s ∧
      |(s.slaves true).attributes.clock - (s.slaves false).attributes.clock| ≤ 200096 := by
  have hrun : (run (SyncNetwork.step eighths fun _ ↦ 2000000000) (WithinBounds 40 7)
      aroundInitial (correctedActions true 0 ++ correctedActions false 92)).map (fun s ↦
        ((s.slaves true).attributes.syncCount, (s.slaves false).attributes.syncCount,
          (s.slaves true).drawn, (s.slaves false).drawn)) = some (1, 1, [1], [1]) := by
    decide +kernel
  obtain ⟨s, hs, hfields⟩ := Option.map_eq_some_iff.mp hrun
  obtain ⟨htrue, hfields⟩ := Prod.mk.inj hfields
  obtain ⟨hfalse, hfields⟩ := Prod.mk.inj hfields
  obtain ⟨hdrawn, hdrawn'⟩ := Prod.mk.inj hfields
  have hbound : ∀ v, (s.slaves v).drawn.length < 2 ^ 32 := by
    intro v
    cases v with
    | true => rw [hdrawn]; decide
    | false => rw [hdrawn']; decide
  have hmasters : ∀ _ : Unit, |(2000000000 : ℤ) - 2000000000| ≤ 0 := fun _ ↦ by decide
  obtain ⟨-, hagree⟩ := stays_synchronised hmasters (reaches_of_run _ hs) hbound
  exact ⟨s, hs, hagree true false (htrue ▸ Nat.one_pos) (hfalse ▸ Nat.one_pos)⟩

end VehicleComm.Channel
