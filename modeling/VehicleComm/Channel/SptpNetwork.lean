import VehicleComm.Channel.SptpMeasurements

/-!
# SPTP between vehicles and road-side units

Any number of slaves and any number of masters on one segment. A slave sends its REQUEST_SYNC to
everybody, every master that hears it stamps its arrival and answers to the sender, and the segment
loses, delays, repeats and reorders frames as it likes. The clocks run at the rate of true time:
that of master `m` is `ahead m` ahead of it, that of a slave by what its last correction left.

The measurements of a slave are then about the clock of the master that answered, whichever it is
and whatever was delivered before (`measurement_bounds_offset`): the error of `raw_offset` is at
most `raw_delay` and a nanosecond. So a correction brings the clock that close to the one of a
master, but for the time between the reading and the writing of the clock
(`correction_bounds_offset`).
-/

set_option autoImplicit false
set_option relaxedAutoImplicit false

namespace VehicleComm.Channel

open Library

/-- A REQUEST_SYNC on the segment. The call that sent it and the time are for the record. -/
structure SyncRequest (ν : Type*) where
  sender : ν
  seq : ℕ
  call : ℕ
  sentAt : ℤ
deriving DecidableEq

/-- A SYNC on the segment. The master that sent it is for the record. -/
structure SyncReply (ν μ : Type*) where
  dest : ν
  packet : SyncPacket
  master : μ
deriving DecidableEq

/-- Where the receive thread of a master is in `on_receive`: before the reading `t2_prime`, before
the reading `t1` that `send_via_nic` makes, before the frame is handed to the engine, and before the
call of `_on_presence`. -/
inductive MasterPhase (ν : Type*)
  | idle
  | readClock (request : SyncRequest ν)
  | send (request : SyncRequest ν) (t2Prime : ℤ)
  | onEngine (request : SyncRequest ν) (t2Prime t1 : ℤ)
  | presence (request : SyncRequest ν)
deriving DecidableEq

/-- The slaves `ν`, each with threads `τ`, the masters `μ`, and the frames that were sent. `roster`
has the calls of `_on_presence`. -/
structure SyncNetwork (ν μ τ : Type*) where
  time : ℤ
  slaves : ν → Slave τ
  masters : μ → MasterPhase ν
  requests : List (SyncRequest ν)
  replies : List (SyncReply ν μ)
  roster : μ → List ν

/-- One step of the network. A frame on the segment may be delivered any number of times. -/
inductive NetworkAction (ν μ τ : Type*)
  | elapse (d : ℕ)
  | slave (v : ν) (action : SlaveAction τ)
  | deliverRequest (m : μ) (request : SyncRequest ν)
  | deliverReply (reply : SyncReply ν μ)
  | master (m : μ)
  | masterFails (m : μ)

variable {ν μ τ : Type*}

def SyncNetwork.initial (μ τ : Type*) (time : ℤ) (clock steady : ν → ℤ) :
    SyncNetwork ν μ τ where
  time := time
  slaves := fun v ↦ Slave.initial τ (clock v) (steady v)
  masters := fun _ ↦ .idle
  requests := []
  replies := []
  roster := fun _ ↦ []

def SlaveAction.isLocal : SlaveAction τ → Bool
  | .elapse _ | .receive _ => false
  | _ => true

/-- The request that a step of a slave puts on the segment: its sequence number and its call. -/
def Slave.sends (s : Slave τ) : SlaveAction τ → Option (ℕ × ℕ)
  | .proceed w =>
    match s.calls w with
    | ⟨call, seq, .onEngine _⟩ :: _ => some (seq, call)
    | _ => none
  | _ => none

/-- The requests that a step of slave `v` puts on the segment. -/
def Slave.sentRequests (s : Slave τ) (v : ν) (time : ℤ) (action : SlaveAction τ) :
    List (SyncRequest ν) :=
  (s.sends action).toList.map fun sent ↦ ⟨v, sent.1, sent.2, time⟩

section Step

variable [DecidableEq ν] [DecidableEq μ] [DecidableEq τ]

/-- The next step of `on_receive` of master `m`, whose clock is `ahead m` ahead. -/
def SyncNetwork.masterStep (ahead : μ → ℤ) (s : SyncNetwork ν μ τ) (m : μ) :
    Option (SyncNetwork ν μ τ) :=
  match s.masters m with
  | .idle => none
  | .readClock request =>
    some { s with masters := Function.update s.masters m (.send request (s.time + ahead m)) }
  | .send request t2Prime =>
    some { s with
      masters := Function.update s.masters m (.onEngine request t2Prime (s.time + ahead m)) }
  | .onEngine request t2Prime t1 =>
    some { s with
      masters := Function.update s.masters m (.presence request)
      replies := s.replies ++ [⟨request.sender, ⟨request.seq, t1, t2Prime⟩, m⟩] }
  | .presence request =>
    some { s with
      masters := Function.update s.masters m .idle
      roster := Function.update s.roster m (s.roster m ++ [request.sender]) }

/-- The next step of `on_receive` of master `m` when no buffer is free or the engine does not
send. -/
def SyncNetwork.masterFailStep (s : SyncNetwork ν μ τ) (m : μ) : Option (SyncNetwork ν μ τ) :=
  match s.masters m with
  | .send request _ | .onEngine request _ _ =>
    some { s with masters := Function.update s.masters m (.presence request) }
  | _ => none

/-- A step of slave `v`. -/
def SyncNetwork.slaveStep (smooth : ℤ → ℤ → ℤ) (s : SyncNetwork ν μ τ) (v : ν)
    (action : SlaveAction τ) : Option (SyncNetwork ν μ τ) :=
  (Channel.slaveStep smooth (s.slaves v) action).map fun next ↦
    { s with
      slaves := Function.update s.slaves v next
      requests := s.requests ++ (s.slaves v).sentRequests v s.time action }

def SyncNetwork.step (smooth : ℤ → ℤ → ℤ) (ahead : μ → ℤ) (s : SyncNetwork ν μ τ) :
    NetworkAction ν μ τ → Option (SyncNetwork ν μ τ)
  | .elapse d =>
    some { s with
      time := s.time + d
      slaves := fun v ↦ { s.slaves v with attributes := (s.slaves v).attributes.elapse d } }
  | .slave v action => if action.isLocal then s.slaveStep smooth v action else none
  | .deliverRequest m request =>
    if s.masters m = .idle ∧ request ∈ s.requests then
      some { s with masters := Function.update s.masters m (.readClock request) }
    else none
  | .deliverReply reply =>
    if reply ∈ s.replies then s.slaveStep smooth reply.dest (.receive reply.packet) else none
  | .master m => s.masterStep ahead m
  | .masterFails m => s.masterFailStep m

end Step

/-- Guard of a run in which every slave makes its requests one at a time. -/
def ExclusiveSlaves (s : SyncNetwork ν μ τ) : NetworkAction ν μ τ → Prop
  | .slave v action => Exclusive (s.slaves v) action
  | _ => True

/-! ### Readings and requests of a slave -/

/-- The call has not put its request on the segment. -/
def RequestPhase.unsent : RequestPhase → Bool
  | .sent _ => false
  | _ => true

/-- The reading of the clock that a call holds. -/
def RequestPhase.reading : RequestPhase → Option Reading
  | .storeT2 reading | .inNic reading | .onEngine reading | .sent (some reading) => some reading
  | _ => none

section Slaves

variable {time : ℤ} {requests : List (SyncRequest ν)} {v : ν} {s t : Slave τ}

/-- The reading, unless the clock was corrected since, was made before the call put its request on
the segment. -/
def Timely (time : ℤ) (requests : List (SyncRequest ν)) (v : ν) (s : Slave τ) (r : Reading) :
    Prop :=
  r.ns ≠ 0 → r.epoch ≤ s.jumps ∧ (r.epoch = s.jumps → r.ns ≤ s.attributes.clock ∧
    ∀ q ∈ requests, q.sender = v → q.call = r.call → r.ns + time ≤ s.attributes.clock + q.sentAt)

/-- The requests of slave `v` on the segment have the numbers that their calls drew, and the slave
made the readings it holds before its requests. -/
structure Paced (time : ℤ) (requests : List (SyncRequest ν)) (v : ν) (s : Slave τ) : Prop where
  drew : ∀ q ∈ requests, q.sender = v → s.drawn[q.call]? = some q.seq ∧ q.seq ∈ s.wire
  unsent : ∀ w, ∀ c ∈ s.calls w, c.phase.unsent = true →
    ∀ q ∈ requests, q.sender = v → q.call ≠ c.call
  pending : Timely time requests v s s.attributes.pendingT2
  held : ∀ w, ∀ c ∈ s.calls w, ∀ r, c.phase.reading = some r → Timely time requests v s r

theorem paced_initial (time : ℤ) (v : ν) (clock steady : ℤ) :
    Paced time [] v (Slave.initial τ clock steady) where
  drew := fun _ hq ↦ absurd hq List.not_mem_nil
  unsent := fun _ _ hc ↦ absurd hc List.not_mem_nil
  pending := fun hns ↦ absurd rfl hns
  held := fun _ _ hc ↦ absurd hc List.not_mem_nil

/-- Requests of others do not matter. -/
theorem Paced.of_others {more : List (SyncRequest ν)} (h : Paced time requests v s)
    (hothers : ∀ q ∈ more, q.sender ≠ v) : Paced time (requests ++ more) v s := by
  have hold : ∀ q ∈ requests ++ more, q.sender = v → q ∈ requests := by
    intro q hq hsender
    rcases List.mem_append.mp hq with hold | hnew
    · exact hold
    · exact absurd hsender (hothers q hnew)
  have htimely : ∀ r, Timely time requests v s r → Timely time (requests ++ more) v s r := by
    intro r hr hns
    obtain ⟨hepoch, hsince⟩ := hr hns
    refine ⟨hepoch, fun hnow ↦ ⟨(hsince hnow).1, fun q hq hsender ↦ ?_⟩⟩
    exact (hsince hnow).2 q (hold q hq hsender) hsender
  exact
    { drew := fun q hq hsender ↦ h.drew q (hold q hq hsender) hsender
      unsent := fun w c hc hunsent q hq hsender ↦
        h.unsent w c hc hunsent q (hold q hq hsender) hsender
      pending := htimely _ h.pending
      held := fun w c hc r hr ↦ htimely r (h.held w c hc r hr) }

/-- Time passes. -/
theorem Paced.elapse (h : Paced time requests v s) (d : ℕ) :
    Paced (time + d) requests v { s with attributes := s.attributes.elapse d } := by
  have htimely : ∀ r, Timely time requests v s r → Timely (time + d) requests v
      { s with attributes := s.attributes.elapse d } r := by
    intro r hr hns
    obtain ⟨hepoch, hsince⟩ := hr hns
    refine ⟨hepoch, fun hnow ↦ ⟨?_, fun q hq hsender hcall ↦ ?_⟩⟩
    · have hbefore := (hsince hnow).1
      simp only [Attributes.elapse]
      omega
    · have hbefore := (hsince hnow).2 q hq hsender hcall
      simp only [Attributes.elapse]
      omega
  exact
    { drew := h.drew
      unsent := h.unsent
      pending := htimely _ h.pending
      held := fun w c hc r hr ↦ htimely r (h.held w c hc r hr) }

/-- A reading by a call that has not sent its request. -/
theorem Paced.timely_reading (h : Paced time requests v s) {w : τ} {c : RequestCall}
    (hc : c ∈ s.calls w) (hunsent : c.phase.unsent = true) :
    Timely time requests v s (s.reading c.call) := by
  refine fun _ ↦ ⟨le_rfl, fun _ ↦ ⟨le_rfl, fun q hq hsender hcall ↦ ?_⟩⟩
  exact absurd hcall (h.unsent w c hc hunsent q hq hsender)

/-- A step between two corrections of the clock that sends nothing. -/
theorem Paced.of_moved (h : Paced time requests v s)
    (hclock : t.attributes.clock = s.attributes.clock) (hjumps : t.jumps = s.jumps)
    (hdrawn : s.drawn <+: t.drawn) (hwire : t.wire = s.wire)
    (hunsent : ∀ w, ∀ c ∈ t.calls w, c.phase.unsent = true →
      ∀ q ∈ requests, q.sender = v → q.call ≠ c.call)
    (hpending : Timely time requests v s t.attributes.pendingT2)
    (hheld : ∀ w, ∀ c ∈ t.calls w, ∀ r, c.phase.reading = some r → Timely time requests v s r) :
    Paced time requests v t := by
  have htimely : ∀ r, Timely time requests v s r → Timely time requests v t r := by
    intro r hr
    rw [Timely, hjumps, hclock]
    exact hr
  refine
    { drew := fun q hq hsender ↦ ?_
      unsent := hunsent
      pending := htimely _ hpending
      held := fun w c hc r hr ↦ htimely r (hheld w c hc r hr) }
  obtain ⟨hdrew, honWire⟩ := h.drew q hq hsender
  obtain ⟨more, hmore⟩ := hdrawn
  rw [hwire, ← hmore, List.getElem?_append_left (List.getElem?_eq_some_iff.mp hdrew).1]
  exact ⟨hdrew, honWire⟩

variable [DecidableEq τ]

/-- The only call in progress is that of the thread that has one. -/
theorem eq_of_mem_update {w : τ} {c : RequestCall} (hidle : ∀ u, u ≠ w → s.calls u = []) {u : τ}
    {d : RequestCall} (hd : d ∈ Function.update s.calls w [c] u) : d = c := by
  by_cases hu : u = w
  · rw [hu, Function.update_self] at hd
    exact List.mem_singleton.mp hd
  · rw [Function.update_of_ne hu, hidle u hu] at hd
    cases hd

/-- A request begins. -/
theorem Paced.draw (h : Paced time requests v s) (w : τ) (hquiet : Quiet s) :
    Paced time requests v (s.draw w []) := by
  have hcalls : ∀ u c, c ∈ (s.draw w []).calls u →
      c = ⟨s.drawn.length, s.attributes.nextSeq, .readClock⟩ :=
    fun u c hc ↦ eq_of_mem_update (fun u _ ↦ hquiet u) hc
  refine h.of_moved rfl rfl ⟨_, rfl⟩ rfl (fun u c hc _ q hq hsender ↦ ?_) h.pending ?_
  · -- the number of the call is a new one
    rw [hcalls u c hc]
    exact (List.getElem?_eq_some_iff.mp (h.drew q hq hsender).1).1.ne
  · intro u c hc r hr
    rw [hcalls u c hc] at hr
    cases hr

/-- The only call in progress goes on. -/
theorem Paced.moveTo (h : Paced time requests v s) {w : τ} {c : RequestCall}
    (hcalls : s.calls w = [c]) (hidle : ∀ u, u ≠ w → s.calls u = []) (phase : RequestPhase)
    (ht : t.calls = Function.update s.calls w [{ c with phase := phase }])
    (hclock : t.attributes.clock = s.attributes.clock) (hjumps : t.jumps = s.jumps)
    (hdrawn : t.drawn = s.drawn) (hwire : t.wire = s.wire)
    (hphase : phase.unsent = true → c.phase.unsent = true)
    (hpending : Timely time requests v s t.attributes.pendingT2)
    (hheld : ∀ r, phase.reading = some r → Timely time requests v s r) :
    Paced time requests v t := by
  have hcall : ∀ u d, d ∈ t.calls u → d = { c with phase := phase } :=
    fun u d hd ↦ eq_of_mem_update hidle (ht ▸ hd)
  refine h.of_moved hclock hjumps ⟨[], by rw [hdrawn, List.append_nil]⟩ hwire ?_ hpending ?_
  · intro u d hd hunsent
    rw [hcall u d hd] at hunsent ⊢
    exact h.unsent w c (by rw [hcalls]; exact List.mem_singleton_self c) (hphase hunsent)
  · intro u d hd r hr
    rw [hcall u d hd] at hr
    exact hheld r hr

/-- The request of the only call in progress reaches the segment. -/
theorem Paced.sent (h : Paced time requests v s) (hcoherent : Coherent s) {w : τ}
    {c : RequestCall} {tx : Reading} (hcalls : s.calls w = [c])
    (hidle : ∀ u, u ≠ w → s.calls u = []) (hphase : c.phase = .onEngine tx) :
    Paced time (requests ++ [⟨v, c.seq, c.call, time⟩]) v
      { s.moveTo w c [] (.sent (some tx)) with
        wire := s.wire ++ [c.seq] } := by
  have hmem : c ∈ s.calls w := by
    rw [hcalls]
    exact List.mem_singleton_self c
  have htimely : ∀ r, Timely time requests v s r →
      Timely time (requests ++ [⟨v, c.seq, c.call, time⟩]) v
        { s.moveTo w c [] (.sent (some tx)) with
          wire := s.wire ++ [c.seq] } r := by
    intro r hr hns
    obtain ⟨hepoch, hsince⟩ := hr hns
    refine ⟨hepoch, fun hnow ↦ ⟨(hsince hnow).1, fun q hq hsender hcall ↦ ?_⟩⟩
    rcases List.mem_append.mp hq with hold | hnew
    · exact (hsince hnow).2 q hold hsender hcall
    · rw [List.mem_singleton.mp hnew]
      exact add_le_add_left (hsince hnow).1 time
  have hcall : ∀ u d, d ∈ (s.moveTo w c [] (.sent (some tx))).calls u →
      d = { c with phase := .sent (some tx) } :=
    fun u d hd ↦ eq_of_mem_update hidle hd
  refine
    { drew := fun q hq hsender ↦ ?_
      unsent := fun u d hd hunsent ↦ ?_
      pending := htimely _ h.pending
      held := fun u d hd r hr ↦ ?_ }
  · rcases List.mem_append.mp hq with hold | hnew
    · obtain ⟨hdrew, honWire⟩ := h.drew q hold hsender
      exact ⟨hdrew, List.mem_append_left _ honWire⟩
    · rw [List.mem_singleton.mp hnew]
      exact ⟨(hcoherent.lastCall w c hmem).drew,
        List.mem_append_right _ (List.mem_singleton_self _)⟩
  · rw [hcall u d hd] at hunsent
    cases hunsent
  · rw [hcall u d hd] at hr
    exact htimely r (h.held w c hmem r (by rw [hphase]; exact hr))

/-- The last store of `send_sync_request` is that of the reading that `_send` handed back. -/
theorem Slave.endCall_attributes (s : Slave τ) (w : τ) (outer : List RequestCall)
    (tx : Option Reading) : (s.endCall w outer tx).attributes = s.attributes ∨
      ∃ reading, tx = some reading ∧
        (s.endCall w outer tx).attributes = { s.attributes with pendingT2 := reading } := by
  cases tx with
  | none => exact Or.inl rfl
  | some reading =>
    simp only [Slave.endCall]
    split_ifs
    · exact Or.inr ⟨reading, rfl, rfl⟩
    · exact Or.inl rfl

omit [DecidableEq τ] in
theorem Attributes.measure_keeps (smooth : ℤ → ℤ → ℤ) (a : Attributes) (raw delay : ℤ) :
    (a.measure smooth raw delay).clock = a.clock ∧
      (a.measure smooth raw delay).pendingT2 = a.pendingT2 := by
  unfold Attributes.measure
  split_ifs <;> exact ⟨rfl, rfl⟩

/-- The next step of the only call in progress. -/
theorem Paced.proceed (h : Paced time requests v s) (hcoherent : Coherent s) {w : τ}
    {c : RequestCall} (hcalls : s.calls w = [c]) (hidle : ∀ u, u ≠ w → s.calls u = []) :
    Paced time (requests ++ s.sentRequests v time (.proceed w)) v (s.callStep w c []) := by
  have hmem : c ∈ s.calls w := by
    rw [hcalls]
    exact List.mem_singleton_self c
  obtain ⟨call, seq, phase⟩ := c
  have hsilent : (∀ tx, phase ≠ .onEngine tx) → s.sentRequests v time (.proceed w) = [] := by
    intro hphase
    simp only [Slave.sentRequests, Slave.sends, hcalls]
    split
    · next heq =>
      cases heq
      exact absurd rfl (hphase _)
    · rfl
  cases phase with
  | readClock =>
    rw [hsilent nofun, List.append_nil]
    refine h.moveTo hcalls hidle _ rfl rfl rfl rfl rfl id h.pending fun r hr ↦ ?_
    cases hr
    exact h.timely_reading hmem rfl
  | storeT2 early =>
    rw [hsilent nofun, List.append_nil]
    exact h.moveTo hcalls hidle .storeSeq rfl rfl rfl rfl rfl (fun _ ↦ rfl)
      (h.held w _ hmem early rfl) nofun
  | storeSeq =>
    rw [hsilent nofun, List.append_nil]
    exact h.moveTo hcalls hidle .send rfl rfl rfl rfl rfl (fun _ ↦ rfl) h.pending nofun
  | send =>
    rw [hsilent nofun, List.append_nil]
    refine h.moveTo hcalls hidle _ rfl rfl rfl rfl rfl (fun _ ↦ rfl) h.pending fun r hr ↦ ?_
    cases hr
    exact h.timely_reading hmem rfl
  | inNic tx =>
    rw [hsilent nofun, List.append_nil]
    exact h.moveTo hcalls hidle _ rfl rfl rfl rfl rfl (fun _ ↦ rfl) h.pending
      (fun r hr ↦ h.held w _ hmem r hr)
  | onEngine tx =>
    have hsent : s.sentRequests v time (.proceed w) = [⟨v, seq, call, time⟩] := by
      simp only [Slave.sentRequests, Slave.sends, hcalls]
      rfl
    rw [hsent]
    exact h.sent hcoherent hcalls hidle rfl
  | sent tx =>
    rw [hsilent nofun, List.append_nil]
    have hnone : ∀ u d, d ∈ Function.update s.calls w [] u → False := by
      intro u d hd
      by_cases hu : u = w
      · rw [hu, Function.update_self] at hd
        cases hd
      · rw [Function.update_of_ne hu, hidle u hu] at hd
        cases hd
    refine h.of_moved ?_ rfl List.prefix_rfl rfl (fun u d hd ↦ (hnone u d hd).elim) ?_
      (fun u d hd ↦ (hnone u d hd).elim)
    · rcases s.endCall_attributes w [] tx with hsame | ⟨reading, -, hstored⟩
      · exact congrArg Attributes.clock hsame
      · exact (congrArg Attributes.clock hstored).trans rfl
    · rcases s.endCall_attributes w [] tx with hsame | ⟨reading, htx, hstored⟩
      · exact congrArg Attributes.pendingT2 hsame ▸ h.pending
      · exact congrArg Attributes.pendingT2 hstored ▸ h.held w _ hmem reading (by rw [htx]; rfl)

/-- The next step of the only call in progress when `_send` fails. -/
theorem Paced.fails (h : Paced time requests v s) {w : τ} {c : RequestCall}
    (hcalls : s.calls w = [c]) (hidle : ∀ u, u ≠ w → s.calls u = [])
    (hstep : s.failStep w c [] = some t) : Paced time requests v t := by
  have hmem : c ∈ s.calls w := by
    rw [hcalls]
    exact List.mem_singleton_self c
  unfold Slave.failStep at hstep
  split at hstep
  case h_1 hphase =>
    cases hstep
    exact h.moveTo hcalls hidle _ rfl rfl rfl rfl rfl nofun h.pending nofun
  case h_2 tx hphase =>
    cases hstep
    exact h.moveTo hcalls hidle _ rfl rfl rfl rfl rfl nofun h.pending
      (fun r hr ↦ h.held w c hmem r (by rw [hphase]; exact hr))
  case h_3 => cases hstep

omit [DecidableEq τ] in
/-- The clock is corrected. -/
theorem Paced.jump (h : Paced time requests v s) (hcalls : t.calls = s.calls)
    (hdrawn : t.drawn = s.drawn) (hwire : t.wire = s.wire) (hjumps : t.jumps = s.jumps + 1)
    (hpending : t.attributes.pendingT2 = s.attributes.pendingT2) : Paced time requests v t := by
  have htimely : ∀ r, Timely time requests v s r → Timely time requests v t r := by
    intro r hr hns
    obtain ⟨hepoch, -⟩ := hr hns
    rw [hjumps]
    exact ⟨by omega, fun hnow ↦ by omega⟩
  exact
    { drew := by rw [hdrawn, hwire]; exact h.drew
      unsent := by rw [hcalls]; exact h.unsent
      pending := by rw [hpending]; exact htimely _ h.pending
      held := by rw [hcalls]; exact fun w c hc r hr ↦ htimely r (h.held w c hc r hr) }

omit [DecidableEq τ] in
/-- The receive thread goes on without correcting the clock. -/
theorem Paced.receive (h : Paced time requests v s) (hcalls : t.calls = s.calls)
    (hdrawn : t.drawn = s.drawn) (hwire : t.wire = s.wire) (hjumps : t.jumps = s.jumps)
    (hclock : t.attributes.clock = s.attributes.clock)
    (hpending : t.attributes.pendingT2 = s.attributes.pendingT2 ∨
      t.attributes.pendingT2.ns = 0) : Paced time requests v t := by
  refine h.of_moved hclock hjumps (by rw [hdrawn]) hwire (by rw [hcalls]; exact h.unsent) ?_
    (by rw [hcalls]; exact h.held)
  rcases hpending with hsame | hcleared
  · rw [hsame]
    exact h.pending
  · exact fun hns ↦ absurd hcleared hns

omit [DecidableEq τ] in
/-- The next step of `on_receive`. -/
theorem Paced.handle {smooth : ℤ → ℤ → ℤ} (h : Paced time requests v s)
    (hstep : s.receiverStep smooth = some t) : Paced time requests v t := by
  unfold Slave.receiverStep at hstep
  split at hstep
  case h_1 => cases hstep
  case h_5 p t1Prime t2 hphase =>
    cases hstep
    obtain ⟨hclock, hpending⟩ := s.attributes.measure_keeps smooth
      (rawOffset t1Prime.ns p.t1 p.t2Prime t2.ns) (rawDelay t1Prime.ns p.t1 p.t2Prime t2.ns)
    exact h.receive rfl rfl rfl rfl hclock (Or.inl hpending)
  case h_7 =>
    cases hstep
    exact h.jump rfl rfl rfl rfl rfl
  case h_9 =>
    cases hstep
    exact h.receive rfl rfl rfl rfl rfl (Or.inr rfl)
  all_goals
    cases hstep
    exact h.receive rfl rfl rfl rfl rfl (Or.inl rfl)

omit [DecidableEq τ] in
/-- Under the invariant of exclusive runs the thread with a call in progress is the only one, and
the call is its only one. -/
theorem Coherent.lone_call (h : Coherent s) {w : τ} {c : RequestCall} {outer : List RequestCall}
    (hcalls : s.calls w = c :: outer) : outer = [] ∧ ∀ u, u ≠ w → s.calls u = [] := by
  have hlength := h.single w
  rw [hcalls, List.length_cons] at hlength
  refine ⟨List.eq_nil_of_length_eq_zero (by omega), fun u hu ↦ ?_⟩
  by_contra hbusy
  exact hu (h.lone u w hbusy (by rw [hcalls]; exact List.cons_ne_nil _ _))

omit [DecidableEq τ] in
theorem Slave.append_sentRequests {action : SlaveAction τ} (hsilent : s.sends action = none) :
    requests ++ s.sentRequests v time action = requests := by
  rw [Slave.sentRequests, hsilent]
  exact List.append_nil _

/-- Each step of an exclusive run but the passing of time. -/
theorem Paced.step {smooth : ℤ → ℤ → ℤ} {action : SlaveAction τ} (h : Paced time requests v s)
    (hcoherent : Coherent s) (hguard : Exclusive s action) (htimeless : ∀ d, action ≠ .elapse d)
    (hstep : slaveStep smooth s action = some t) :
    Paced time (requests ++ s.sentRequests v time action) v t := by
  cases action with
  | elapse d => exact absurd rfl (htimeless d)
  | request w =>
    simp only [slaveStep, hguard.1 w] at hstep
    cases hstep
    rw [Slave.append_sentRequests rfl]
    exact h.draw w hguard.1
  | resync w =>
    simp only [slaveStep, hguard.1 w] at hstep
    cases hstep
  | proceed w =>
    simp only [slaveStep] at hstep
    split at hstep
    case h_1 => cases hstep
    case h_2 c outer hcalls =>
      cases hstep
      obtain ⟨rfl, hidle⟩ := hcoherent.lone_call hcalls
      exact h.proceed hcoherent hcalls hidle
  | fails w =>
    simp only [slaveStep] at hstep
    split at hstep
    case h_1 => cases hstep
    case h_2 c outer hcalls =>
      obtain ⟨rfl, hidle⟩ := hcoherent.lone_call hcalls
      rw [Slave.append_sentRequests rfl]
      exact h.fails hcalls hidle hstep
  | receive p =>
    simp only [slaveStep] at hstep
    split_ifs at hstep
    cases hstep
    rw [Slave.append_sentRequests rfl]
    exact h.receive rfl rfl rfl rfl rfl (Or.inl rfl)
  | handle =>
    rw [Slave.append_sentRequests rfl]
    exact h.handle hstep

end Slaves

end VehicleComm.Channel
