import VehicleComm.Channel.SptpNetwork

/-!
# How good a measurement is

The slaves and masters are those of the network of `Channel.SptpNetwork`: frames are lost, delayed,
repeated and reordered, any number of masters may answer a request, and nothing bounds a delay or
makes the two ways alike.

The invariant (`SyncNetwork.Timed`) is about times: every master answers a request after it was
sent, and stamps the answer after it received the request; every slave holds readings that are
before its requests, and handles answers that were sent before it read its clock. So the four times
of a measurement are in their order, and half the round trip bounds the error
(`SyncNetwork.Timed.measurement`). A step of a slave, of a master or of the segment keeps it, and so
does time that passes, since all clocks advance alike.

What is asked of a run is `ExclusiveSlaves`: a slave begins a request only while no other call of
`send_sync_request` is in progress and `on_receive` is not past its load of `_pending_t2_ns`, and
`on_receive` loads that reading for a SYNC that may pass only while no call is in progress. A slave
makes fewer than `2 ^ 32` requests, so that no number comes twice. Under these the measured offset
is the offset to the master that answered, up to the measured delay and a nanosecond
(`measurement_bounds_offset`), and a correction leaves no more than that and the time between the
reading and the writing of the clock (`correction_bounds_offset`). The second is about corrected
times that are not before the epoch, since `clock_settime` refuses the others.
-/

set_option autoImplicit false
set_option relaxedAutoImplicit false

namespace VehicleComm.Channel

open Library

variable {ν μ τ : Type*} {ahead : μ → ℤ}

/-! ### The invariant -/

/-- The packet answers a request of slave `v` that master `m` received after it was sent, and was
stamped after that. -/
def Answers (ahead : μ → ℤ) (time : ℤ) (requests : List (SyncRequest ν)) (v : ν) (m : μ)
    (p : SyncPacket) : Prop :=
  ∃ q ∈ requests, q.sender = v ∧ q.seq = p.seq ∧ q.sentAt + ahead m ≤ p.t2Prime ∧
    p.t2Prime ≤ p.t1 ∧ p.t1 ≤ time + ahead m

def MasterOk (ahead : μ → ℤ) (time : ℤ) (requests : List (SyncRequest ν)) (m : μ) :
    MasterPhase ν → Prop
  | .idle => True
  | .readClock q | .presence q => q ∈ requests
  | .send q t2Prime => q ∈ requests ∧ q.sentAt + ahead m ≤ t2Prime ∧ t2Prime ≤ time + ahead m
  | .onEngine q t2Prime t1 =>
    q ∈ requests ∧ q.sentAt + ahead m ≤ t2Prime ∧ t2Prime ≤ t1 ∧ t1 ≤ time + ahead m

/-- How far the clock of a slave is ahead of the clock of a master. -/
def SyncNetwork.offset (ahead : μ → ℤ) (s : SyncNetwork ν μ τ) (v : ν) (m : μ) : ℤ :=
  (s.slaves v).attributes.clock - (s.time + ahead m)

/-- The offset `raw`, that slave `v` has measured last and accepted, is the one to the master that
answered, up to half the round trip and a nanosecond. -/
def SyncNetwork.Estimates (ahead : μ → ℤ) (s : SyncNetwork ν μ τ) (v : ν) (raw : ℤ) : Prop :=
  ∃ reply ∈ s.replies, reply.dest = v ∧ ∃ e, (s.slaves v).measurements.getLast? = some e ∧
    e.accepted = true ∧ e.seq = reply.packet.seq ∧
    raw = rawOffset e.t1Prime.ns reply.packet.t1 reply.packet.t2Prime e.t2.ns ∧
    |s.offset ahead v reply.master - raw| ≤
      rawDelay e.t1Prime.ns reply.packet.t1 reply.packet.t2Prime e.t2.ns + 1

/-- The answer was sent to slave `v` before the reading `t1_prime` of its clock. -/
def SyncNetwork.ReadAfter (ahead : μ → ℤ) (s : SyncNetwork ν μ τ) (v : ν) (p : SyncPacket)
    (t1Prime : Arrival) : Prop :=
  ∃ reply ∈ s.replies, reply.dest = v ∧ reply.packet = p ∧
    p.t1 + (s.slaves v).attributes.clock ≤ t1Prime.ns + (s.time + ahead reply.master) ∧
    t1Prime.ns ≤ (s.slaves v).attributes.clock

/-- What the receive thread of a slave knows at its phase. -/
def SyncNetwork.ReceiverTimed (ahead : μ → ℤ) (s : SyncNetwork ν μ τ) (v : ν) : Prop :=
  match (s.slaves v).receiver with
  | .readClock p => ∃ reply ∈ s.replies, reply.dest = v ∧ reply.packet = p
  | .loadT2 p t1Prime | .checkSeq p t1Prime _ | .measure p t1Prime _ =>
    s.ReadAfter ahead v p t1Prime
  | .jumpRead raw => (s.slaves v).drawn.length < 2 ^ 32 → s.Estimates ahead v raw
  | .jumpSet raw ts => ((s.slaves v).drawn.length < 2 ^ 32 → s.Estimates ahead v raw) ∧
      ts.ns ≤ (s.slaves v).attributes.clock
  | _ => True

structure SyncNetwork.Timed (ahead : μ → ℤ) (s : SyncNetwork ν μ τ) : Prop where
  paced : ∀ v, Paced s.time s.requests v (s.slaves v)
  past : ∀ q ∈ s.requests, q.sentAt ≤ s.time
  masters : ∀ m, MasterOk ahead s.time s.requests m (s.masters m)
  replies : ∀ reply ∈ s.replies,
    Answers ahead s.time s.requests reply.dest reply.master reply.packet
  receivers : ∀ v, s.ReceiverTimed ahead v
  roster : ∀ m, ∀ v ∈ s.roster m, ∃ q ∈ s.requests, q.sender = v

theorem SyncNetwork.timed_initial (time : ℤ) (clock steady : ν → ℤ) :
    (SyncNetwork.initial μ τ time clock steady).Timed ahead where
  paced := fun v ↦ paced_initial time v (clock v) (steady v)
  past := fun _ hq ↦ absurd hq List.not_mem_nil
  masters := fun _ ↦ trivial
  replies := fun _ hreply ↦ absurd hreply List.not_mem_nil
  receivers := fun _ ↦ trivial
  roster := fun _ _ hv ↦ absurd hv List.not_mem_nil

/-! ### What stays true -/

section Stays

variable {time later : ℤ} {requests more : List (SyncRequest ν)}

theorem Answers.mono {v : ν} {m : μ} {p : SyncPacket} (h : Answers ahead time requests v m p)
    (htime : time ≤ later) (hmore : requests ⊆ more) : Answers ahead later more v m p := by
  obtain ⟨q, hq, hsender, hseq, hreceived, hstamped, hpast⟩ := h
  exact ⟨q, hmore hq, hsender, hseq, hreceived, hstamped, by omega⟩

theorem MasterOk.mono {m : μ} {phase : MasterPhase ν} (h : MasterOk ahead time requests m phase)
    (htime : time ≤ later) (hmore : requests ⊆ more) : MasterOk ahead later more m phase := by
  cases phase with
  | idle => trivial
  | readClock q => exact hmore h
  | presence q => exact hmore h
  | send q t2Prime =>
    obtain ⟨hq, hreceived, hpast⟩ := h
    exact ⟨hmore hq, hreceived, by omega⟩
  | onEngine q t2Prime t1 =>
    obtain ⟨hq, hreceived, hstamped, hpast⟩ := h
    exact ⟨hmore hq, hreceived, hstamped, by omega⟩

variable {s t : SyncNetwork ν μ τ} {v : ν}

/-- The receive thread knows the same when nothing it knows about has changed: its clock has moved
with time, and there may be more answers and more numbers drawn. -/
theorem SyncNetwork.ReceiverTimed.of_unmoved (h : s.ReceiverTimed ahead v)
    (hreceiver : (t.slaves v).receiver = (s.slaves v).receiver)
    (hmeasurements : (t.slaves v).measurements = (s.slaves v).measurements)
    (hdrawn : (s.slaves v).drawn.length ≤ (t.slaves v).drawn.length)
    (hreplies : s.replies ⊆ t.replies)
    (hclock : (s.slaves v).attributes.clock ≤ (t.slaves v).attributes.clock)
    (hrate : (t.slaves v).attributes.clock - t.time = (s.slaves v).attributes.clock - s.time) :
    t.ReceiverTimed ahead v := by
  have hoffset : ∀ m, t.offset ahead v m = s.offset ahead v m := by
    intro m
    simp only [SyncNetwork.offset]
    omega
  have hread : ∀ p t1Prime, s.ReadAfter ahead v p t1Prime → t.ReadAfter ahead v p t1Prime := by
    rintro p t1Prime ⟨reply, hreply, hdest, hpacket, hafter, hpast⟩
    exact ⟨reply, hreplies hreply, hdest, hpacket, by omega, by omega⟩
  have hestimate : ∀ raw, ((s.slaves v).drawn.length < 2 ^ 32 → s.Estimates ahead v raw) →
      (t.slaves v).drawn.length < 2 ^ 32 → t.Estimates ahead v raw := by
    intro raw hbefore hbound
    obtain ⟨reply, hreply, hdest, e, hlast, haccepted, hseq, hraw, herror⟩ :=
      hbefore (hdrawn.trans_lt hbound)
    exact ⟨reply, hreplies hreply, hdest, e, hmeasurements ▸ hlast, haccepted, hseq, hraw,
      by rwa [hoffset]⟩
  unfold SyncNetwork.ReceiverTimed at h ⊢
  rw [hreceiver]
  cases hphase : (s.slaves v).receiver with
  | idle | finish raw | clear => trivial
  | readClock p =>
    rw [hphase] at h
    obtain ⟨reply, hreply, hanswer⟩ := h
    exact ⟨reply, hreplies hreply, hanswer⟩
  | loadT2 p t1Prime | checkSeq p t1Prime t2 | measure p t1Prime t2 =>
    rw [hphase] at h
    exact hread p t1Prime h
  | jumpRead raw =>
    rw [hphase] at h
    exact hestimate raw h
  | jumpSet raw ts =>
    rw [hphase] at h
    exact ⟨hestimate raw h.1, h.2.trans hclock⟩

end Stays

/-! ### A measurement -/

section Measurement

variable {s t : SyncNetwork ν μ τ} {v : ν}

/-- The four times of a measurement are in their order, so that half the round trip bounds its
error. -/
theorem SyncNetwork.Timed.measurement (h : s.Timed ahead) (hcoherent : Coherent (s.slaves v))
    (hnumbered : NumberedFromOne (s.slaves v)) (hbound : (s.slaves v).drawn.length < 2 ^ 32)
    {p : SyncPacket} {t1Prime : Arrival} {t2 : Reading}
    (hphase : (s.slaves v).receiver = .measure p t1Prime t2) :
    ∃ reply ∈ s.replies, reply.dest = v ∧ reply.packet = p ∧
      0 ≤ rawDelay t1Prime.ns p.t1 p.t2Prime t2.ns ∧
      |s.offset ahead v reply.master - rawOffset t1Prime.ns p.t1 p.t2Prime t2.ns| ≤
        rawDelay t1Prime.ns p.t1 p.t2Prime t2.ns + 1 := by
  have hread := h.receivers v
  rw [SyncNetwork.ReceiverTimed, hphase] at hread
  obtain ⟨reply, hreply, rfl, rfl, hback, hpast⟩ := hread
  obtain ⟨q, hq, hsender, hseq, hreceived, hstamped, -⟩ := h.replies reply hreply
  have hreceiver := hcoherent.receiverOk
  rw [ReceiverOk, hphase] at hreceiver
  obtain ⟨-, hquiet, ht2, hns, hpending⟩ := hreceiver
  -- the reading is of the call that sent the request
  obtain ⟨hlast, hepoch⟩ := hcoherent.armed hquiet (by rw [hphase]; rfl) (ht2 ▸ hns)
  have hcall : q.call = (s.slaves reply.dest).attributes.pendingT2.call := by
    have hdrew := ((h.paced reply.dest).drew q hq hsender).1
    rw [hseq, hpending] at hdrew
    exact hnumbered.injective hbound hdrew hlast.drew
  have hthere := (((h.paced reply.dest).pending (ht2 ▸ hns)).2 hepoch).2 q hq hsender hcall
  rw [← ht2] at hthere
  refine ⟨reply, hreply, rfl, rfl, ?_, ?_⟩
  · exact Int.tdiv_nonneg (by omega) (by decide)
  · have hestimate := abs_sub_estimate_le_delay (s.offset ahead reply.dest reply.master)
      (reply.packet.t2Prime - ahead reply.master -
        (t2.ns - ((s.slaves reply.dest).attributes.clock - s.time)))
      (t1Prime.ns - ((s.slaves reply.dest).attributes.clock - s.time) -
        (reply.packet.t1 - ahead reply.master)) (by omega) (by omega)
    have htotal : (t1Prime.ns - reply.packet.t1) - (reply.packet.t2Prime - t2.ns) =
        2 * s.offset ahead reply.dest reply.master +
          (t1Prime.ns - ((s.slaves reply.dest).attributes.clock - s.time) -
              (reply.packet.t1 - ahead reply.master) -
            (reply.packet.t2Prime - ahead reply.master -
              (t2.ns - ((s.slaves reply.dest).attributes.clock - s.time)))) := by
      rw [SyncNetwork.offset]
      ring
    have htrip : (t1Prime.ns - reply.packet.t1) + (reply.packet.t2Prime - t2.ns) =
        t1Prime.ns - ((s.slaves reply.dest).attributes.clock - s.time) -
            (reply.packet.t1 - ahead reply.master) +
          (reply.packet.t2Prime - ahead reply.master -
            (t2.ns - ((s.slaves reply.dest).attributes.clock - s.time))) := by
      ring
    rw [rawOffset, rawDelay, htotal, htrip]
    exact hestimate

/-- The next step of `on_receive` of slave `v`. -/
theorem SyncNetwork.Timed.handle {smooth : ℤ → ℤ → ℤ} {next : Slave τ} (h : s.Timed ahead)
    (hcoherent : Coherent (s.slaves v)) (hnumbered : NumberedFromOne (s.slaves v))
    (hstep : (s.slaves v).receiverStep smooth = some next) (hnext : t.slaves v = next)
    (htime : t.time = s.time) (hreplies : t.replies = s.replies) : t.ReceiverTimed ahead v := by
  have hknown := h.receivers v
  unfold Slave.receiverStep at hstep
  split at hstep
  case h_1 => cases hstep
  case h_2 p hphase =>
    obtain rfl := Option.some.inj hstep
    simp only [SyncNetwork.ReceiverTimed, SyncNetwork.ReadAfter, hphase, hnext, htime,
      hreplies] at hknown ⊢
    obtain ⟨reply, hreply, hdest, rfl⟩ := hknown
    obtain ⟨-, -, -, -, -, -, hpast⟩ := h.replies reply hreply
    exact ⟨reply, hreply, hdest, rfl, by omega, le_rfl⟩
  case h_3 p t1Prime hphase =>
    obtain rfl := Option.some.inj hstep
    simp only [SyncNetwork.ReceiverTimed, hphase, hnext] at hknown ⊢
    split_ifs
    · trivial
    · simp only [SyncNetwork.ReadAfter, hnext, htime, hreplies] at hknown ⊢
      exact hknown
  case h_4 p t1Prime t2 hphase =>
    obtain rfl := Option.some.inj hstep
    simp only [SyncNetwork.ReceiverTimed, hphase, hnext] at hknown ⊢
    split_ifs
    · trivial
    · simp only [SyncNetwork.ReadAfter, hnext, htime, hreplies] at hknown ⊢
      exact hknown
  case h_5 p t1Prime t2 hphase =>
    obtain rfl := Option.some.inj hstep
    simp only [SyncNetwork.ReceiverTimed, hnext]
    split_ifs with houtlier hjump
    · trivial
    · intro hbound
      obtain ⟨reply, hreply, hdest, rfl, -, herror⟩ :=
        h.measurement hcoherent hnumbered hbound hphase
      have hclock := ((s.slaves v).attributes.measure_keeps smooth
        (rawOffset t1Prime.ns reply.packet.t1 reply.packet.t2Prime t2.ns)
        (rawDelay t1Prime.ns reply.packet.t1 reply.packet.t2Prime t2.ns)).1
      refine ⟨reply, hreplies ▸ hreply, hdest, _, by rw [hnext]; exact List.getLast?_concat,
        by simpa using houtlier, rfl, rfl, ?_⟩
      simp only [SyncNetwork.offset, hnext, hclock, htime] at herror ⊢
      exact herror
    · trivial
  case h_6 raw hphase =>
    obtain rfl := Option.some.inj hstep
    simp only [SyncNetwork.ReceiverTimed, SyncNetwork.Estimates, SyncNetwork.offset, hphase, hnext,
      htime, hreplies, clockGettime_ns] at hknown ⊢
    exact ⟨hknown, le_rfl⟩
  all_goals
    obtain rfl := Option.some.inj hstep
    simp only [SyncNetwork.ReceiverTimed, hnext]

variable [DecidableEq ν]

/-- The slaves other than `v` know the same after a step of `v`. -/
theorem SyncNetwork.Timed.of_slave_moved (h : s.Timed ahead) {next : Slave τ}
    {more : List (SyncRequest ν)}
    (ht : t = { s with
      slaves := Function.update s.slaves v next
      requests := s.requests ++ more })
    (hmore : ∀ q ∈ more, q.sender = v ∧ q.sentAt = s.time)
    (hpaced : Paced s.time (s.requests ++ more) v next) (hreceiver : t.ReceiverTimed ahead v) :
    t.Timed ahead := by
  subst ht
  have hgrown : s.requests ⊆ s.requests ++ more := List.subset_append_left _ _
  refine
    { paced := fun u ↦ ?_
      past := fun q hq ↦ ?_
      masters := fun m ↦ (h.masters m).mono le_rfl hgrown
      replies := fun reply hreply ↦ (h.replies reply hreply).mono le_rfl hgrown
      receivers := fun u ↦ ?_
      roster := fun m u hu ↦ ?_ }
  · by_cases hu : u = v
    · subst hu
      simpa using hpaced
    · simp only [Function.update_of_ne hu]
      exact (h.paced u).of_others fun q hq hsender ↦ hu (hsender.symm.trans (hmore q hq).1)
  · rcases List.mem_append.mp hq with hold | hnew
    · exact h.past q hold
    · exact (hmore q hnew).2.le
  · by_cases hu : u = v
    · exact hu ▸ hreceiver
    · refine (h.receivers u).of_unmoved ?_ ?_ ?_ (fun _ hreply ↦ hreply) ?_ ?_
      all_goals simp only [Function.update_of_ne hu, le_refl]
  · obtain ⟨q, hq, hsender⟩ := h.roster m u hu
    exact ⟨q, hgrown hq, hsender⟩

end Measurement

/-! ### Steps of the network -/

section Steps

variable [DecidableEq τ] {smooth : ℤ → ℤ → ℤ}

/-- The callers of `send_sync_request` do not write the clock. -/
theorem slaveStep_clock {s t : Slave τ} {action : SlaveAction τ} (helapse : ∀ d, action ≠ .elapse d)
    (hhandle : action ≠ .handle) (hstep : slaveStep smooth s action = some t) :
    t.attributes.clock = s.attributes.clock := by
  cases action with
  | elapse d => exact absurd rfl (helapse d)
  | handle => exact absurd rfl hhandle
  | request w | resync w | receive p =>
    simp only [slaveStep] at hstep
    split at hstep
    all_goals cases hstep
    rfl
  | proceed w =>
    simp only [slaveStep] at hstep
    split at hstep
    case h_1 => cases hstep
    case h_2 c outer hcalls =>
      cases hstep
      unfold Slave.callStep
      cases c.phase with
      | sent tx =>
        rcases s.endCall_attributes w outer tx with hsame | ⟨reading, -, hstored⟩
        · exact congrArg Attributes.clock hsame
        · exact (congrArg Attributes.clock hstored).trans rfl
      | _ => rfl
  | fails w =>
    simp only [slaveStep] at hstep
    split at hstep
    case h_1 => cases hstep
    case h_2 c outer hcalls =>
      unfold Slave.failStep at hstep
      split at hstep
      all_goals cases hstep
      all_goals rfl

omit [DecidableEq τ] in
theorem Slave.mem_sentRequests {s : Slave τ} {v : ν} {time : ℤ} {action : SlaveAction τ}
    {q : SyncRequest ν} (hq : q ∈ s.sentRequests v time action) :
    q.sender = v ∧ q.sentAt = time := by
  obtain ⟨sent, -, rfl⟩ := List.mem_map.mp hq
  exact ⟨rfl, rfl⟩

variable [DecidableEq ν] {s t : SyncNetwork ν μ τ}

/-- A step of slave `v` keeps the invariant. -/
theorem SyncNetwork.Timed.slave (h : s.Timed ahead) {v : ν} {action : SlaveAction τ}
    (hcoherent : Coherent (s.slaves v)) (hnumbered : NumberedFromOne (s.slaves v))
    (hguard : Exclusive (s.slaves v) action) (hlocal : action.isLocal = true)
    (hstep : s.slaveStep smooth v action = some t) : t.Timed ahead := by
  obtain ⟨next, hnext, rfl⟩ := Option.map_eq_some_iff.mp hstep
  have helapse : ∀ d, action ≠ .elapse d := by
    rintro d rfl
    cases hlocal
  have hpaced := (h.paced v).step hcoherent hguard helapse hnext
  refine h.of_slave_moved rfl (fun q hq ↦ Slave.mem_sentRequests hq) hpaced ?_
  by_cases hhandle : action = .handle
  · subst hhandle
    exact h.handle hcoherent hnumbered hnext (Function.update_self ..) rfl rfl
  · have hreceive : ∀ p, action ≠ .receive p := by
      rintro p rfl
      cases hlocal
    obtain ⟨-, hreceiver, -, hmeasurements⟩ :=
      slaveStep_receiver_unchanged hreceive hhandle hnext
    have hclock := slaveStep_clock helapse hhandle hnext
    have hdrawn : (s.slaves v).drawn.length ≤ next.drawn.length := by
      rcases slaveStep_drawn hnext with ⟨hsame, -⟩ | ⟨hmore, -⟩
      · rw [hsame]
      · rw [hmore, List.length_append]
        exact Nat.le_add_right _ _
    refine (h.receivers v).of_unmoved ?_ ?_ ?_ (fun _ hreply ↦ hreply) ?_ ?_
    all_goals simp only [Function.update_self]
    · exact hreceiver
    · exact hmeasurements
    · exact hdrawn
    · exact hclock.ge
    · rw [hclock]

/-- A SYNC arrives at its slave. -/
theorem SyncNetwork.Timed.deliverReply (h : s.Timed ahead) {reply : SyncReply ν μ}
    (hcoherent : Coherent (s.slaves reply.dest)) (hreply : reply ∈ s.replies)
    (hstep : s.slaveStep smooth reply.dest (.receive reply.packet) = some t) : t.Timed ahead := by
  obtain ⟨next, hnext, rfl⟩ := Option.map_eq_some_iff.mp hstep
  have hguard : Exclusive (s.slaves reply.dest) (.receive reply.packet) := trivial
  have hpaced := (h.paced reply.dest).step hcoherent hguard (fun _ ↦ nofun) hnext
  refine h.of_slave_moved rfl (fun q hq ↦ Slave.mem_sentRequests hq) hpaced ?_
  simp only [Channel.slaveStep] at hnext
  split_ifs at hnext
  obtain rfl := Option.some.inj hnext
  simp only [SyncNetwork.ReceiverTimed, Function.update_self]
  exact ⟨reply, hreply, rfl, rfl⟩

omit [DecidableEq τ] [DecidableEq ν] in
/-- Time passes. -/
theorem SyncNetwork.Timed.elapse (h : s.Timed ahead) (d : ℕ) :
    ({ s with
      time := s.time + d
      slaves := fun v ↦ { s.slaves v with attributes := (s.slaves v).attributes.elapse d } } :
      SyncNetwork ν μ τ).Timed ahead where
  paced := fun v ↦ (h.paced v).elapse d
  past := fun q hq ↦ (h.past q hq).trans (by simp)
  masters := fun m ↦ (h.masters m).mono (by simp) (fun _ hq ↦ hq)
  replies := fun reply hreply ↦ (h.replies reply hreply).mono (by simp) (fun _ hq ↦ hq)
  receivers := fun v ↦ (h.receivers v).of_unmoved rfl rfl le_rfl (fun _ hreply ↦ hreply)
    (by simp [Attributes.elapse]) (by simp [Attributes.elapse])
  roster := h.roster

variable [DecidableEq μ]

omit [DecidableEq τ] [DecidableEq ν] in
/-- A master goes on to another phase, after it may have sent an answer or reported a sender. -/
theorem SyncNetwork.Timed.of_master_moved (h : s.Timed ahead) {m : μ} {phase : MasterPhase ν}
    (htime : t.time = s.time) (hslaves : t.slaves = s.slaves) (hrequests : t.requests = s.requests)
    (hmasters : t.masters = Function.update s.masters m phase)
    (hphase : MasterOk ahead s.time s.requests m phase)
    (hreplies : ∀ reply ∈ t.replies, reply ∈ s.replies ∨
      Answers ahead s.time s.requests reply.dest reply.master reply.packet)
    (hgrown : s.replies ⊆ t.replies)
    (hroster : ∀ m, ∀ v ∈ t.roster m, v ∈ s.roster m ∨ ∃ q ∈ s.requests, q.sender = v) :
    t.Timed ahead := by
  refine
    { paced := fun v ↦ ?_
      past := fun q hq ↦ ?_
      masters := fun k ↦ ?_
      replies := fun reply hreply ↦ ?_
      receivers := fun v ↦ ?_
      roster := fun k v hv ↦ ?_ }
  · rw [htime, hrequests, hslaves]
    exact h.paced v
  · rw [htime]
    exact h.past q (hrequests ▸ hq)
  · rw [htime, hrequests, hmasters]
    by_cases hk : k = m
    · rw [hk, Function.update_self]
      exact hphase
    · rw [Function.update_of_ne hk]
      exact h.masters k
  · rw [htime, hrequests]
    rcases hreplies reply hreply with hold | hnew
    · exact h.replies reply hold
    · exact hnew
  · exact (h.receivers v).of_unmoved (by rw [hslaves]) (by rw [hslaves]) (by rw [hslaves]) hgrown
      (by rw [hslaves]) (by rw [hslaves, htime])
  · rw [hrequests]
    rcases hroster k v hv with hold | hnew
    · exact h.roster k v hold
    · exact hnew

omit [DecidableEq τ] [DecidableEq ν] in
/-- The next step of `on_receive` of a master. -/
theorem SyncNetwork.Timed.master (h : s.Timed ahead) {m : μ}
    (hstep : s.masterStep ahead m = some t) : t.Timed ahead := by
  have hknown := h.masters m
  have hold : ∀ k, ∀ v ∈ s.roster k, v ∈ s.roster k ∨ ∃ q ∈ s.requests, q.sender = v :=
    fun _ _ hv ↦ Or.inl hv
  unfold SyncNetwork.masterStep at hstep
  split at hstep
  case h_1 => cases hstep
  case h_2 q hphase =>
    obtain rfl := Option.some.inj hstep
    rw [hphase] at hknown
    refine h.of_master_moved rfl rfl rfl rfl ⟨hknown, ?_, le_rfl⟩ (fun _ hreply ↦ Or.inl hreply)
      (fun _ hreply ↦ hreply) hold
    exact add_le_add_left (h.past q hknown) (ahead m)
  case h_3 q t2Prime hphase =>
    obtain rfl := Option.some.inj hstep
    rw [hphase] at hknown
    obtain ⟨hq, hreceived, hpast⟩ := hknown
    exact h.of_master_moved rfl rfl rfl rfl ⟨hq, hreceived, hpast, le_rfl⟩
      (fun _ hreply ↦ Or.inl hreply) (fun _ hreply ↦ hreply) hold
  case h_4 q t2Prime t1 hphase =>
    obtain rfl := Option.some.inj hstep
    rw [hphase] at hknown
    obtain ⟨hq, hreceived, hstamped, hpast⟩ := hknown
    refine h.of_master_moved rfl rfl rfl rfl hq (fun reply hreply ↦ ?_)
      (List.subset_append_left _ _) hold
    rcases List.mem_append.mp hreply with hbefore | hnew
    · exact Or.inl hbefore
    · rw [List.mem_singleton.mp hnew]
      exact Or.inr ⟨q, hq, rfl, rfl, hreceived, hstamped, hpast⟩
  case h_5 q hphase =>
    obtain rfl := Option.some.inj hstep
    rw [hphase] at hknown
    refine h.of_master_moved rfl rfl rfl rfl trivial (fun _ hreply ↦ Or.inl hreply)
      (fun _ hreply ↦ hreply) fun k v hv ↦ ?_
    by_cases hk : k = m
    · subst hk
      simp only [Function.update_self] at hv
      rcases List.mem_append.mp hv with hbefore | hnew
      · exact Or.inl hbefore
      · exact Or.inr ⟨q, hknown, (List.mem_singleton.mp hnew).symm⟩
    · simp only [Function.update_of_ne hk] at hv
      exact Or.inl hv

omit [DecidableEq τ] [DecidableEq ν] in
/-- A master whose answer is not sent. -/
theorem SyncNetwork.Timed.masterFails (h : s.Timed ahead) {m : μ}
    (hstep : s.masterFailStep m = some t) : t.Timed ahead := by
  have hknown := h.masters m
  unfold SyncNetwork.masterFailStep at hstep
  split at hstep
  case h_1 q t2Prime hphase =>
    obtain rfl := Option.some.inj hstep
    rw [hphase] at hknown
    exact h.of_master_moved rfl rfl rfl rfl hknown.1 (fun _ hreply ↦ Or.inl hreply)
      (fun _ hreply ↦ hreply) (fun _ _ hv ↦ Or.inl hv)
  case h_2 q t2Prime t1 hphase =>
    obtain rfl := Option.some.inj hstep
    rw [hphase] at hknown
    exact h.of_master_moved rfl rfl rfl rfl hknown.1 (fun _ hreply ↦ Or.inl hreply)
      (fun _ hreply ↦ hreply) (fun _ _ hv ↦ Or.inl hv)
  case h_3 => cases hstep

/-- A step of the network is a step of each slave, or leaves it alone. -/
theorem SyncNetwork.step_slave {action : NetworkAction ν μ τ} (hguard : ExclusiveSlaves s action)
    (hstep : s.step smooth ahead action = some t) (v : ν) :
    t.slaves v = s.slaves v ∨ ∃ own, Exclusive (s.slaves v) own ∧
      Channel.slaveStep smooth (s.slaves v) own = some (t.slaves v) := by
  have hmoved : ∀ u own, Exclusive (s.slaves u) own → s.slaveStep smooth u own = some t →
      t.slaves v = s.slaves v ∨ ∃ own, Exclusive (s.slaves v) own ∧
        Channel.slaveStep smooth (s.slaves v) own = some (t.slaves v) := by
    intro u own hown hslave
    obtain ⟨next, hnext, rfl⟩ := Option.map_eq_some_iff.mp hslave
    by_cases hv : v = u
    · subst hv
      exact Or.inr ⟨own, hown, by simp only [hnext, Function.update_self]⟩
    · exact Or.inl (Function.update_of_ne hv ..)
  cases action with
  | elapse d =>
    obtain rfl := Option.some.inj hstep
    exact Or.inr ⟨.elapse d, trivial, rfl⟩
  | slave u own =>
    simp only [SyncNetwork.step] at hstep
    split_ifs at hstep
    exact hmoved u own hguard hstep
  | deliverRequest m q =>
    simp only [SyncNetwork.step] at hstep
    split_ifs at hstep
    obtain rfl := Option.some.inj hstep
    exact Or.inl rfl
  | deliverReply reply =>
    simp only [SyncNetwork.step] at hstep
    split_ifs at hstep
    exact hmoved reply.dest (.receive reply.packet) trivial hstep
  | master m =>
    simp only [SyncNetwork.step, SyncNetwork.masterStep] at hstep
    split at hstep
    all_goals cases hstep
    all_goals exact Or.inl rfl
  | masterFails m =>
    simp only [SyncNetwork.step, SyncNetwork.masterFailStep] at hstep
    split at hstep
    all_goals cases hstep
    all_goals exact Or.inl rfl

/-- Each step of a run in which the requests of each slave are exclusive. -/
theorem SyncNetwork.Timed.step {action : NetworkAction ν μ τ} (h : s.Timed ahead)
    (hcoherent : ∀ v, Coherent (s.slaves v)) (hnumbered : ∀ v, NumberedFromOne (s.slaves v))
    (hguard : ExclusiveSlaves s action) (hstep : s.step smooth ahead action = some t) :
    t.Timed ahead := by
  cases action with
  | elapse d =>
    obtain rfl := Option.some.inj hstep
    exact h.elapse d
  | slave v own =>
    simp only [SyncNetwork.step] at hstep
    split_ifs at hstep with hlocal
    exact h.slave (hcoherent v) (hnumbered v) hguard hlocal hstep
  | deliverRequest m q =>
    simp only [SyncNetwork.step] at hstep
    split_ifs at hstep with hdelivered
    obtain rfl := Option.some.inj hstep
    exact h.of_master_moved rfl rfl rfl rfl hdelivered.2 (fun _ hreply ↦ Or.inl hreply)
      (fun _ hreply ↦ hreply) (fun _ _ hv ↦ Or.inl hv)
  | deliverReply reply =>
    simp only [SyncNetwork.step] at hstep
    split_ifs at hstep with hreply
    exact h.deliverReply (hcoherent reply.dest) hreply hstep
  | master m => exact h.master hstep
  | masterFails m => exact h.masterFails hstep

/-- What holds along the runs of the network: each slave runs as a slave does, and the times are in
order. -/
theorem SyncNetwork.sound_of_reaches {time : ℤ} {clock steady : ν → ℤ}
    (hrun : Reaches (SyncNetwork.step smooth ahead) ExclusiveSlaves
      (SyncNetwork.initial μ τ time clock steady) s) :
    (∀ v, Reaches (Channel.slaveStep smooth) Exclusive (Slave.initial τ (clock v) (steady v))
      (s.slaves v)) ∧ s.Timed ahead := by
  refine Reaches.invariant (P := fun r : SyncNetwork ν μ τ ↦
      (∀ v, Reaches (Channel.slaveStep smooth) Exclusive (Slave.initial τ (clock v) (steady v))
        (r.slaves v)) ∧ r.Timed ahead)
    (fun r action t hinv hguard hstep ↦ ?_) hrun
    ⟨fun v ↦ Reaches.refl _, SyncNetwork.timed_initial time clock steady⟩
  obtain ⟨hslaves, htimed⟩ := hinv
  refine ⟨fun v ↦ ?_, htimed.step (fun v ↦ coherent_of_reaches (hslaves v))
    (fun v ↦ numberedFromOne_of_reaches (hslaves v)) hguard hstep⟩
  rcases SyncNetwork.step_slave hguard hstep v with hsame | ⟨own, hown, hmoved⟩
  · rw [hsame]
    exact hslaves v
  · exact (hslaves v).next own hown hmoved

end Steps

/-! ### Measurements and corrections -/

section Runs

variable [DecidableEq τ] [DecidableEq ν] [DecidableEq μ] {smooth : ℤ → ℤ → ℤ}
  {s t : SyncNetwork ν μ τ}

/-- What a slave measures. Assumes: all clocks advance alike, the requests of every slave are
exclusive (`Exclusive`), and the slave has made fewer than `2 ^ 32` of them. Whatever the network
lost, delayed, repeated or reordered, the offset that the slave measures is its offset to the clock
of the master that answered, with an error of at most the measured delay and a nanosecond. -/
theorem measurement_bounds_offset {time : ℤ} {clock steady : ν → ℤ}
    (hrun : Reaches (SyncNetwork.step smooth ahead) ExclusiveSlaves
      (SyncNetwork.initial μ τ time clock steady) s) {v : ν}
    (hbound : (s.slaves v).drawn.length < 2 ^ 32) {p : SyncPacket} {t1Prime : Arrival}
    {t2 : Reading} (hphase : (s.slaves v).receiver = .measure p t1Prime t2) :
    ∃ reply ∈ s.replies, reply.dest = v ∧ reply.packet = p ∧
      0 ≤ rawDelay t1Prime.ns p.t1 p.t2Prime t2.ns ∧
      |s.offset ahead v reply.master - rawOffset t1Prime.ns p.t1 p.t2Prime t2.ns| ≤
        rawDelay t1Prime.ns p.t1 p.t2Prime t2.ns + 1 := by
  obtain ⟨hslaves, htimed⟩ := SyncNetwork.sound_of_reaches hrun
  exact htimed.measurement (coherent_of_reaches (hslaves v))
    (numberedFromOne_of_reaches (hslaves v)) hbound hphase

/-- The slave asks, and the master receives the request thirty nanoseconds later, takes five to
answer, and the answer arrives after fifty. -/
def exchangeActions : List (NetworkAction Unit Unit Unit) :=
  NetworkAction.slave () (.request ()) ::
    List.replicate 7 (NetworkAction.slave () (.proceed ())) ++
  [NetworkAction.elapse 30, NetworkAction.deliverRequest () ⟨(), 1, 0, 0⟩, NetworkAction.master (),
    NetworkAction.elapse 5, NetworkAction.master (), NetworkAction.master (),
    NetworkAction.elapse 50, NetworkAction.deliverReply ⟨(), ⟨1, 2000035, 2000030⟩, ()⟩] ++
  List.replicate 3 (NetworkAction.slave () .handle)

def apartInitial : SyncNetwork Unit Unit Unit :=
  SyncNetwork.initial Unit Unit 0 (fun _ ↦ 5000000) fun _ ↦ 0

instance [Fintype τ] (s : SyncNetwork ν μ τ) (action : NetworkAction ν μ τ) :
    Decidable (ExclusiveSlaves s action) :=
  match action with
  | .slave v own => inferInstanceAs (Decidable (Exclusive (s.slaves v) own))
  | .elapse _ | .deliverRequest .. | .deliverReply _ | .master _ | .masterFails _ => isTrue trivial

theorem measurement_bounds_offset_exchange :
    ∃ s, run (SyncNetwork.step eighths fun _ ↦ 2000000) ExclusiveSlaves apartInitial
        exchangeActions = some s ∧
      |SyncNetwork.offset (fun _ ↦ 2000000) s () () - 3000010| ≤ 41 := by
  have hrun : (run (SyncNetwork.step eighths fun _ ↦ 2000000) ExclusiveSlaves apartInitial
      exchangeActions).map (fun s ↦ ((s.slaves ()).drawn, (s.slaves ()).receiver)) =
        some ([1], .measure ⟨1, 2000035, 2000030⟩ ⟨5000085, 0⟩ ⟨5000000, 0, 0⟩) := by
    decide +kernel
  obtain ⟨s, hs, hfields⟩ := Option.map_eq_some_iff.mp hrun
  obtain ⟨hdrawn, hphase⟩ := Prod.mk.inj hfields
  obtain ⟨reply, -, -, -, -, herror⟩ := measurement_bounds_offset (reaches_of_run _ hs)
    (by rw [hdrawn]; decide) hphase
  exact ⟨s, hs, herror⟩

/-- What a correction leaves. Assumes: as in `measurement_bounds_offset`, and the corrected time is
not before the epoch. When the clock is written, its offset to the clock of the master that answered
is at most the delay that was measured with it, a nanosecond, and the time that passed between the
reading and the writing. -/
theorem correction_bounds_offset {time : ℤ} {clock steady : ν → ℤ}
    (hrun : Reaches (SyncNetwork.step smooth ahead) ExclusiveSlaves
      (SyncNetwork.initial μ τ time clock steady) s) {v : ν}
    (hbound : (s.slaves v).drawn.length < 2 ^ 32) {raw : ℤ} {ts : Timespec}
    (hphase : (s.slaves v).receiver = .jumpSet raw ts) (hvalid : raw ≤ ts.ns)
    (hstep : s.step smooth ahead (.slave v .handle) = some t) :
    ∃ reply ∈ s.replies, reply.dest = v ∧ ∃ e, (s.slaves v).measurements.getLast? = some e ∧
      e.accepted = true ∧ e.seq = reply.packet.seq ∧
      |t.offset ahead v reply.master| ≤
        rawDelay e.t1Prime.ns reply.packet.t1 reply.packet.t2Prime e.t2.ns + 1 +
          ((s.slaves v).attributes.clock - ts.ns) := by
  obtain ⟨-, htimed⟩ := SyncNetwork.sound_of_reaches hrun
  have hknown := htimed.receivers v
  simp only [SyncNetwork.ReceiverTimed, hphase] at hknown
  obtain ⟨hestimate, hread⟩ := hknown
  obtain ⟨reply, hreply, hdest, e, hlast, haccepted, hseq, -, herror⟩ := hestimate hbound
  refine ⟨reply, hreply, hdest, e, hlast, haccepted, hseq, ?_⟩
  have hclock : (t.slaves v).attributes.clock = ts.ns - raw ∧ t.time = s.time := by
    simp only [SyncNetwork.step, SlaveAction.isLocal, if_true, SyncNetwork.slaveStep,
      Channel.slaveStep, Slave.receiverStep, hphase, Option.map_some] at hstep
    obtain rfl := Option.some.inj hstep
    refine ⟨?_, rfl⟩
    simp only [Function.update_self, Attributes.jump, clockSettime]
    rw [if_pos (Timespec.jump_normalized (by omega)), Timespec.jump_ns]
    ring
  have hmoved : t.offset ahead v reply.master =
      (s.offset ahead v reply.master - raw) + (ts.ns - (s.slaves v).attributes.clock) := by
    rw [SyncNetwork.offset, SyncNetwork.offset, hclock.1, hclock.2]
    ring
  have hlag : |ts.ns - (s.slaves v).attributes.clock| = (s.slaves v).attributes.clock - ts.ns := by
    rw [abs_sub_comm, abs_of_nonneg (by omega)]
  calc |t.offset ahead v reply.master|
      ≤ |s.offset ahead v reply.master - raw| + |ts.ns - (s.slaves v).attributes.clock| := by
        rw [hmoved]
        exact abs_add_le _ _
    _ ≤ _ := by rw [hlag]; omega

/-- The measurement is accepted, and the clock is written seven nanoseconds after it was read. -/
def correctionActions : List (NetworkAction Unit Unit Unit) :=
  exchangeActions ++
  [NetworkAction.slave () .handle, NetworkAction.slave () .handle, NetworkAction.elapse 7]

theorem correction_bounds_offset_exchange :
    ∃ s t, run (SyncNetwork.step eighths fun _ ↦ 2000000) ExclusiveSlaves apartInitial
        correctionActions = some s ∧
      SyncNetwork.step eighths (fun _ ↦ 2000000) s (.slave () .handle) = some t ∧
      |SyncNetwork.offset (fun _ ↦ 2000000) t () ()| ≤ 48 := by
  have hrun : (run (SyncNetwork.step eighths fun _ ↦ 2000000) ExclusiveSlaves apartInitial
      correctionActions).map (fun s ↦ ((s.slaves ()).drawn, (s.slaves ()).receiver,
        (s.slaves ()).attributes.clock)) =
        some ([1], .jumpSet 3000010 ⟨0, 5000085⟩, 5000092) := by
    decide +kernel
  have hframes : (run (SyncNetwork.step eighths fun _ ↦ 2000000) ExclusiveSlaves apartInitial
      correctionActions).map (fun s ↦ ((s.slaves ()).measurements, s.replies)) =
        some ([⟨1, ⟨5000085, 0⟩, ⟨5000000, 0, 0⟩, true⟩],
          [⟨(), ⟨1, 2000035, 2000030⟩, ()⟩]) := by
    decide +kernel
  obtain ⟨s, hs, hfields⟩ := Option.map_eq_some_iff.mp hrun
  obtain ⟨hdrawn, hfields⟩ := Prod.mk.inj hfields
  obtain ⟨hphase, hclock⟩ := Prod.mk.inj hfields
  rw [hs, Option.map_some] at hframes
  obtain ⟨hmeasurements, hreplies⟩ := Prod.mk.inj (Option.some.inj hframes)
  obtain ⟨t, ht⟩ : ∃ t, SyncNetwork.step eighths (fun _ ↦ 2000000) s (.slave () .handle) =
      some t := by
    simp [SyncNetwork.step, SyncNetwork.slaveStep, slaveStep, Slave.receiverStep, hphase,
      SlaveAction.isLocal]
  obtain ⟨reply, hreply, -, e, hlast, -, -, herror⟩ := correction_bounds_offset
    (reaches_of_run _ hs) (by rw [hdrawn]; decide) hphase (by decide) ht
  rw [hmeasurements] at hlast
  rw [hreplies] at hreply
  obtain rfl := List.mem_singleton.mp hreply
  obtain rfl := Option.some.inj hlast
  rw [hclock] at herror
  exact ⟨s, t, hs, ht, herror⟩

end Runs

end VehicleComm.Channel
