import VehicleComm.Channel.Sptp

/-!
# Exclusive requests

`_pending_t2_ns` and `_pending_seq` are one pair kept in two atomics, and `send_sync_request` stores
the first of them twice. A run is exclusive (`Exclusive`) when a request begins only while no other
one is in progress and `on_receive` is not past its load of `_pending_t2_ns`, and `on_receive` loads
a pending reading for a SYNC that may pass only while no request is in progress. Along exclusive
runs the pair is coherent wherever it is used (`Coherent`).

Nothing in the code makes runs exclusive. A request begun inside the `_send` of another leaves the
reading of one with the number of the other, and a SYNC handled before `_send` has returned is armed
again by the last store.
-/

set_option autoImplicit false
set_option relaxedAutoImplicit false

namespace VehicleComm.Channel

open Library

variable {τ : Type*}

/-! ### Exclusive runs -/

/-- No call of `send_sync_request` is in progress. -/
def Quiet (s : Slave τ) : Prop := ∀ w, s.calls w = []

/-- `on_receive` is past its load of `_pending_t2_ns`. -/
def ReceiverPhase.afterLoad : ReceiverPhase → Bool
  | .idle | .readClock _ | .loadT2 .. => false
  | _ => true

/-- `on_receive` has measured, and has not cleared the pending reading. -/
def ReceiverPhase.afterMeasure : ReceiverPhase → Bool
  | .jumpRead _ | .jumpSet .. | .finish _ | .clear => true
  | _ => false

/-- Guard of an exclusive run. -/
def Exclusive (s : Slave τ) : SlaveAction τ → Prop
  | .request _ | .resync _ => Quiet s ∧ s.receiver.afterLoad = false
  | .handle =>
    match s.receiver with
    | .loadT2 p _ => s.attributes.pendingT2.ns ≠ 0 →
        (p.seq = s.attributes.pendingSeq ∨ ∃ w, ∃ c ∈ s.calls w, c.seq = p.seq) → Quiet s
    | _ => True
  | _ => True

/-! ### The invariant -/

/-- The reading was made by the call, after the last correction of the clock. -/
def Reading.Fresh (r : Reading) (call jumps : ℕ) : Prop := r.call = call ∧ r.epoch = jumps

/-- What a call of `send_sync_request` has stored at its phase. -/
def PhaseOk (pendingT2 : Reading) (pendingSeq jumps : ℕ) (c : RequestCall) : Prop :=
  match c.phase with
  | .readClock => True
  | .storeT2 early => early.Fresh c.call jumps
  | .storeSeq => pendingT2.Fresh c.call jumps
  | .send | .sent none => pendingT2.Fresh c.call jumps ∧ pendingSeq = c.seq
  | .inNic tx | .onEngine tx | .sent (some tx) =>
    pendingT2.Fresh c.call jumps ∧ pendingSeq = c.seq ∧ tx.Fresh c.call jumps

/-- The call is the last one made, and nothing was measured for it. -/
structure LastCall (s : Slave τ) (call seq : ℕ) : Prop where
  last : call + 1 = s.drawn.length
  drew : s.drawn[call]? = some seq
  unmeasured : ∀ e ∈ s.measurements, e.t2.call < call

/-- The pending reading, unless cleared, is of the last call, whose number is pending. -/
def Armed (s : Slave τ) : Prop :=
  s.attributes.pendingT2.ns ≠ 0 →
    LastCall s s.attributes.pendingT2.call s.attributes.pendingSeq ∧
      s.attributes.pendingT2.epoch = s.jumps

/-- What the receive thread has read at its phase. Past the load either nothing has moved since, or
the SYNC is for no call in progress nor for the pending one. -/
def ReceiverOk (s : Slave τ) : Prop :=
  match s.receiver with
  | .idle | .readClock _ => True
  | .loadT2 _ t1Prime => t1Prime.epoch = s.jumps
  | .checkSeq p t1Prime t2 => t1Prime.epoch = s.jumps ∧
      ((Quiet s ∧ t2 = s.attributes.pendingT2 ∧ t2.ns ≠ 0) ∨
        (p.seq ≠ s.attributes.pendingSeq ∧ ∀ w, ∀ c ∈ s.calls w, c.seq ≠ p.seq))
  | .measure p t1Prime t2 => t1Prime.epoch = s.jumps ∧ Quiet s ∧
      t2 = s.attributes.pendingT2 ∧ t2.ns ≠ 0 ∧ p.seq = s.attributes.pendingSeq
  | .jumpRead _ | .jumpSet .. | .finish _ | .clear => Quiet s

structure Coherent (s : Slave τ) : Prop where
  lone : ∀ w v, s.calls w ≠ [] → s.calls v ≠ [] → w = v
  single : ∀ w, (s.calls w).length ≤ 1
  lastCall : ∀ w, ∀ c ∈ s.calls w, LastCall s c.call c.seq
  phaseOk : ∀ w, ∀ c ∈ s.calls w,
    PhaseOk s.attributes.pendingT2 s.attributes.pendingSeq s.jumps c
  armed : Quiet s → s.receiver.afterMeasure = false → Armed s
  receiverOk : ReceiverOk s
  earlier : ∀ e ∈ s.measurements, e.t2.call < s.drawn.length
  coherent : ∀ e ∈ s.measurements,
    s.drawn[e.t2.call]? = some e.seq ∧ e.t2.epoch = e.t1Prime.epoch
  ordered : s.measurements.Pairwise fun first later ↦ first.t2.call < later.t2.call

theorem coherent_initial (τ : Type*) (clock steady : ℤ) :
    Coherent (Slave.initial τ clock steady) where
  lone := fun _ _ hw ↦ absurd rfl hw
  single := fun _ ↦ Nat.zero_le _
  lastCall := fun _ _ hc ↦ absurd hc List.not_mem_nil
  phaseOk := fun _ _ hc ↦ absurd hc List.not_mem_nil
  armed := fun _ _ hpending ↦ absurd rfl hpending
  receiverOk := trivial
  earlier := fun _ he ↦ absurd he List.not_mem_nil
  coherent := fun _ he ↦ absurd he List.not_mem_nil
  ordered := List.Pairwise.nil

section Steps

variable {s t : Slave τ}

/-- While a call is in progress the receive thread is before its load, or will find that its SYNC is
not for the pending call. -/
theorem Coherent.busy (h : Coherent s) {w : τ} (hbusy : s.calls w ≠ []) :
    s.receiver = .idle ∨ (∃ p, s.receiver = .readClock p) ∨
      (∃ p t1Prime, s.receiver = .loadT2 p t1Prime) ∨
      ∃ p t1Prime t2, s.receiver = .checkSeq p t1Prime t2 ∧
        p.seq ≠ s.attributes.pendingSeq ∧ ∀ v, ∀ c ∈ s.calls v, c.seq ≠ p.seq := by
  have hreceiver := h.receiverOk
  unfold ReceiverOk at hreceiver
  cases hphase : s.receiver with
  | idle => exact Or.inl rfl
  | readClock p => exact Or.inr (Or.inl ⟨p, rfl⟩)
  | loadT2 p t1Prime => exact Or.inr (Or.inr (Or.inl ⟨p, t1Prime, rfl⟩))
  | checkSeq p t1Prime t2 =>
    rw [hphase] at hreceiver
    obtain ⟨-, ⟨hquiet, -⟩ | hother⟩ := hreceiver
    · exact absurd (hquiet w) hbusy
    · exact Or.inr (Or.inr (Or.inr ⟨p, t1Prime, t2, rfl, hother⟩))
  | measure p t1Prime t2 =>
    rw [hphase] at hreceiver
    exact absurd (hreceiver.2.1 w) hbusy
  | jumpRead raw | jumpSet raw ts | finish raw | clear =>
    rw [hphase] at hreceiver
    exact absurd (hreceiver w) hbusy

/-- The receive thread stays as it is when a call of another sequence number stores or returns. -/
theorem Coherent.receiverOk_of_busy (h : Coherent s) {w : τ} {c : RequestCall}
    (hcalls : s.calls w = [c]) (hreceiver : t.receiver = s.receiver) (hjumps : t.jumps = s.jumps)
    (hseq : t.attributes.pendingSeq = s.attributes.pendingSeq ∨ t.attributes.pendingSeq = c.seq)
    (hothers : ∀ v, ∀ d ∈ t.calls v, ∃ u, ∃ d' ∈ s.calls u, d'.seq = d.seq) : ReceiverOk t := by
  have hbefore := h.receiverOk
  obtain hphase | ⟨p, hphase⟩ | ⟨p, t1Prime, hphase⟩ | ⟨p, t1Prime, t2, hphase, hpending, hnone⟩ :=
    h.busy (w := w) (by rw [hcalls]; exact List.cons_ne_nil _ _)
  · simp only [ReceiverOk, hreceiver, hphase]
  · simp only [ReceiverOk, hreceiver, hphase]
  · simp only [ReceiverOk, hreceiver, hphase, hjumps] at hbefore ⊢
    exact hbefore
  · simp only [ReceiverOk, hreceiver, hphase, hjumps] at hbefore ⊢
    refine ⟨hbefore.1, Or.inr ⟨?_, fun v d hd ↦ ?_⟩⟩
    · rcases hseq with hsame | hown
      · rwa [hsame]
      · rw [hown]
        exact (hnone w c (by rw [hcalls]; exact List.mem_singleton_self c)).symm
    · obtain ⟨u, d', hd', hd'seq⟩ := hothers v d hd
      rw [← hd'seq]
      exact hnone u d' hd'

variable [DecidableEq τ]

/-- A request begins while nothing else is going on. -/
theorem Coherent.draw (h : Coherent s) (w : τ) (hquiet : Quiet s)
    (hload : s.receiver.afterLoad = false) : Coherent (s.draw w []) := by
  have hcalls : ∀ v c, c ∈ (s.draw w []).calls v →
      v = w ∧ c = ⟨s.drawn.length, s.attributes.nextSeq, .readClock⟩ := by
    intro v c hc
    by_cases hv : v = w
    · subst hv
      rw [Slave.draw_calls, Function.update_self] at hc
      exact ⟨rfl, List.mem_singleton.mp hc⟩
    · rw [Slave.draw_calls, Function.update_of_ne hv, hquiet v] at hc
      cases hc
  have hbusy : ∀ v, (s.draw w []).calls v ≠ [] → v = w := by
    intro v hv
    obtain ⟨c, hc⟩ := List.exists_mem_of_ne_nil _ hv
    exact (hcalls v c hc).1
  refine
    { lone := ?_
      single := ?_
      lastCall := ?_
      phaseOk := ?_
      armed := ?_
      receiverOk := ?_
      earlier := ?_
      coherent := ?_
      ordered := h.ordered }
  · intro v u hv hu
    rw [hbusy v hv, hbusy u hu]
  · intro v
    by_cases hv : v = w
    · subst hv
      simp [Slave.draw]
    · simp [Slave.draw, Function.update_of_ne hv, hquiet v]
  · intro v c hc
    obtain ⟨-, rfl⟩ := hcalls v c hc
    refine ⟨?_, ?_, h.earlier⟩
    · simp [Slave.draw]
    · simp [Slave.draw]
  · intro v c hc
    obtain ⟨-, rfl⟩ := hcalls v c hc
    trivial
  · intro hafter
    have hnone := hafter w
    simp [Slave.draw] at hnone
  · have hreceiver := h.receiverOk
    simp only [ReceiverOk, Slave.draw] at hreceiver ⊢
    cases hphase : s.receiver with
    | idle | readClock p => trivial
    | loadT2 p t1Prime =>
      rw [hphase] at hreceiver
      exact hreceiver
    | _ =>
      rw [hphase] at hload
      cases hload
  · intro e he
    have hlt := h.earlier e he
    simp only [Slave.draw, List.length_append, List.length_singleton]
    omega
  · intro e he
    have hlt := h.earlier e he
    simp only [Slave.draw]
    rw [List.getElem?_append_left hlt]
    exact h.coherent e he

/-- The only call in progress goes on to another phase. -/
theorem Coherent.of_call_moved (h : Coherent s) {w : τ} {c : RequestCall} {phase : RequestPhase}
    (hcalls : s.calls w = [c])
    (hmoved : t.calls = Function.update s.calls w [{ c with phase := phase }])
    (hreceiver : t.receiver = s.receiver) (hdrawn : t.drawn = s.drawn) (hjumps : t.jumps = s.jumps)
    (hmeasurements : t.measurements = s.measurements)
    (hseq : t.attributes.pendingSeq = s.attributes.pendingSeq ∨ t.attributes.pendingSeq = c.seq)
    (hphase : PhaseOk t.attributes.pendingT2 t.attributes.pendingSeq t.jumps
      { c with phase := phase }) : Coherent t := by
  have hmem : c ∈ s.calls w := by
    rw [hcalls]
    exact List.mem_singleton_self c
  have honly : ∀ v d, d ∈ t.calls v → v = w ∧ d = { c with phase := phase } := by
    intro v d hd
    rw [hmoved] at hd
    by_cases hv : v = w
    · subst hv
      rw [Function.update_self] at hd
      exact ⟨rfl, List.mem_singleton.mp hd⟩
    · rw [Function.update_of_ne hv] at hd
      exact absurd (h.lone v w (List.ne_nil_of_mem hd) (List.ne_nil_of_mem hmem)) hv
  refine
    { lone := ?_
      single := ?_
      lastCall := ?_
      phaseOk := ?_
      armed := ?_
      receiverOk := ?_
      earlier := by rw [hmeasurements, hdrawn]; exact h.earlier
      coherent := by rw [hmeasurements, hdrawn]; exact h.coherent
      ordered := by rw [hmeasurements]; exact h.ordered }
  · intro v u hv hu
    obtain ⟨d, hd⟩ := List.exists_mem_of_ne_nil _ hv
    obtain ⟨d', hd'⟩ := List.exists_mem_of_ne_nil _ hu
    rw [(honly v d hd).1, (honly u d' hd').1]
  · intro v
    rw [hmoved]
    by_cases hv : v = w
    · subst hv
      simp
    · rw [Function.update_of_ne hv]
      exact h.single v
  · intro v d hd
    obtain ⟨-, rfl⟩ := honly v d hd
    obtain ⟨hlast, hdrew, hunmeasured⟩ := h.lastCall w c hmem
    exact ⟨by rw [hdrawn]; exact hlast, by rw [hdrawn]; exact hdrew,
      by rw [hmeasurements]; exact hunmeasured⟩
  · intro v d hd
    obtain ⟨-, rfl⟩ := honly v d hd
    exact hphase
  · intro hquiet
    have hnone := hquiet w
    rw [hmoved, Function.update_self] at hnone
    cases hnone
  · refine h.receiverOk_of_busy hcalls hreceiver hjumps hseq fun v d hd ↦ ?_
    obtain ⟨-, rfl⟩ := honly v d hd
    exact ⟨w, c, hmem, rfl⟩

/-- The only call in progress returns. -/
theorem Coherent.endCall (h : Coherent s) {w : τ} {c : RequestCall} {tx : Option Reading}
    (hcalls : s.calls w = [c]) (hphase : c.phase = .sent tx) : Coherent (s.endCall w [] tx) := by
  have hmem : c ∈ s.calls w := by
    rw [hcalls]
    exact List.mem_singleton_self c
  have hquiet : Quiet (s.endCall w [] tx) := by
    intro v
    by_cases hv : v = w
    · rw [hv, Slave.endCall_calls, Function.update_self]
    · rw [Slave.endCall_calls, Function.update_of_ne hv]
      by_contra hbusy
      exact hv (h.lone v w hbusy (List.ne_nil_of_mem hmem))
  have hnone : ∀ v d, d ∉ (s.endCall w [] tx).calls v := by
    intro v d hd
    rw [hquiet v] at hd
    cases hd
  have hseq : (s.endCall w [] tx).attributes.pendingSeq = s.attributes.pendingSeq := by
    cases tx with
    | none => rfl
    | some reading =>
      simp only [Slave.endCall]
      split_ifs <;> rfl
  -- whichever reading is pending now, the call made it
  have hfresh : (s.endCall w [] tx).attributes.pendingT2.Fresh c.call s.jumps ∧
      s.attributes.pendingSeq = c.seq := by
    have hok := h.phaseOk w c hmem
    rw [PhaseOk, hphase] at hok
    cases tx with
    | none => exact hok
    | some reading =>
      obtain ⟨hpending, hown, hreading⟩ := hok
      simp only [Slave.endCall]
      split_ifs
      · exact ⟨hreading, hown⟩
      · exact ⟨hpending, hown⟩
  refine
    { lone := fun v u hv _ ↦ absurd (hquiet v) hv
      single := fun v ↦ by rw [hquiet v]; exact Nat.zero_le _
      lastCall := fun v d hd ↦ absurd hd (hnone v d)
      phaseOk := fun v d hd ↦ absurd hd (hnone v d)
      armed := ?_
      receiverOk := ?_
      earlier := h.earlier
      coherent := h.coherent
      ordered := h.ordered }
  · intro _ _ _
    obtain ⟨⟨hcall, hepoch⟩, hown⟩ := hfresh
    rw [hseq, hcall, hown]
    obtain ⟨hlast, hdrew, hunmeasured⟩ := h.lastCall w c hmem
    exact ⟨⟨hlast, hdrew, hunmeasured⟩, hepoch⟩
  · exact h.receiverOk_of_busy hcalls rfl rfl (Or.inl hseq) fun v d hd ↦ absurd hd (hnone v d)

/-- Each step of the call in progress. -/
theorem Coherent.callStep (h : Coherent s) {w : τ} {c : RequestCall} {outer : List RequestCall}
    (hcalls : s.calls w = c :: outer) : Coherent (s.callStep w c outer) := by
  have hsingle := h.single w
  rw [hcalls, List.length_cons] at hsingle
  obtain rfl : outer = [] := List.eq_nil_of_length_eq_zero (by omega)
  have hok := h.phaseOk w c (by rw [hcalls]; exact List.mem_singleton_self c)
  unfold Slave.callStep
  cases hphase : c.phase with
  | readClock =>
    exact h.of_call_moved hcalls rfl rfl rfl rfl rfl (Or.inl rfl) ⟨rfl, rfl⟩
  | storeT2 early =>
    rw [PhaseOk, hphase] at hok
    exact h.of_call_moved hcalls rfl rfl rfl rfl rfl (Or.inl rfl) hok
  | storeSeq =>
    rw [PhaseOk, hphase] at hok
    exact h.of_call_moved hcalls rfl rfl rfl rfl rfl (Or.inr rfl) ⟨hok, rfl⟩
  | send =>
    rw [PhaseOk, hphase] at hok
    exact h.of_call_moved hcalls rfl rfl rfl rfl rfl (Or.inl rfl) ⟨hok.1, hok.2, rfl, rfl⟩
  | inNic tx =>
    rw [PhaseOk, hphase] at hok
    exact h.of_call_moved hcalls rfl rfl rfl rfl rfl (Or.inl rfl) hok
  | onEngine tx =>
    rw [PhaseOk, hphase] at hok
    exact h.of_call_moved hcalls rfl rfl rfl rfl rfl (Or.inl rfl) hok
  | sent tx => exact h.endCall hcalls hphase

/-- The call in progress does not get its request onto the segment. -/
theorem Coherent.failStep (h : Coherent s) {w : τ} {c : RequestCall} {outer : List RequestCall}
    (hcalls : s.calls w = c :: outer) (hstep : s.failStep w c outer = some t) : Coherent t := by
  have hsingle := h.single w
  rw [hcalls, List.length_cons] at hsingle
  obtain rfl : outer = [] := List.eq_nil_of_length_eq_zero (by omega)
  have hok := h.phaseOk w c (by rw [hcalls]; exact List.mem_singleton_self c)
  unfold Slave.failStep at hstep
  split at hstep
  case h_1 hphase =>
    cases hstep
    rw [PhaseOk, hphase] at hok
    exact h.of_call_moved hcalls rfl rfl rfl rfl rfl (Or.inl rfl) hok
  case h_2 tx hphase =>
    cases hstep
    rw [PhaseOk, hphase] at hok
    exact h.of_call_moved hcalls rfl rfl rfl rfl rfl (Or.inl rfl) hok
  case h_3 => cases hstep

omit [DecidableEq τ] in
/-- The receive thread goes on without touching the pending request or the record. -/
theorem Coherent.of_receiver_moved (h : Coherent s) (hcalls : t.calls = s.calls)
    (hdrawn : t.drawn = s.drawn) (hjumps : t.jumps = s.jumps)
    (hmeasurements : t.measurements = s.measurements)
    (hpending : t.attributes.pendingT2 = s.attributes.pendingT2)
    (hseq : t.attributes.pendingSeq = s.attributes.pendingSeq)
    (hafter : t.receiver.afterMeasure = false → s.receiver.afterMeasure = false)
    (hreceiver : ReceiverOk t) : Coherent t where
  lone := by rw [hcalls]; exact h.lone
  single := by rw [hcalls]; exact h.single
  lastCall := by
    intro w c hc
    rw [hcalls] at hc
    obtain ⟨hlast, hdrew, hunmeasured⟩ := h.lastCall w c hc
    exact ⟨by rw [hdrawn]; exact hlast, by rw [hdrawn]; exact hdrew,
      by rw [hmeasurements]; exact hunmeasured⟩
  phaseOk := by rw [hcalls, hpending, hseq, hjumps]; exact h.phaseOk
  armed := by
    intro hquiet hbefore hnonzero
    rw [Quiet, hcalls] at hquiet
    rw [hpending] at hnonzero
    obtain ⟨⟨hlast, hdrew, hunmeasured⟩, hepoch⟩ := h.armed hquiet (hafter hbefore) hnonzero
    rw [hpending, hseq, hjumps]
    exact ⟨⟨by rw [hdrawn]; exact hlast, by rw [hdrawn]; exact hdrew,
      by rw [hmeasurements]; exact hunmeasured⟩, hepoch⟩
  receiverOk := hreceiver
  earlier := by rw [hmeasurements, hdrawn]; exact h.earlier
  coherent := by rw [hmeasurements, hdrawn]; exact h.coherent
  ordered := by rw [hmeasurements]; exact h.ordered

omit [DecidableEq τ] in
/-- With no call in progress, what is stored does not matter while the pending reading is used up.
-/
theorem Coherent.of_quiet (h : Coherent s) (hquiet : Quiet s) (hcalls : t.calls = s.calls)
    (hdrawn : t.drawn = s.drawn) (hmeasurements : t.measurements = s.measurements)
    (hused : t.receiver.afterMeasure = false → t.attributes.pendingT2.ns = 0)
    (hreceiver : ReceiverOk t) : Coherent t where
  lone := fun w v hw _ ↦ absurd (by rw [hcalls]; exact hquiet w) hw
  single := by rw [hcalls]; exact h.single
  lastCall := by
    intro w c hc
    rw [hcalls, hquiet w] at hc
    cases hc
  phaseOk := by
    intro w c hc
    rw [hcalls, hquiet w] at hc
    cases hc
  armed := fun _ hafter hnonzero ↦ absurd (hused hafter) hnonzero
  receiverOk := hreceiver
  earlier := by rw [hmeasurements, hdrawn]; exact h.earlier
  coherent := by rw [hmeasurements, hdrawn]; exact h.coherent
  ordered := by rw [hmeasurements]; exact h.ordered

omit [DecidableEq τ] in
/-- The measurement: the SYNC is for the last call, and nothing was measured for it before. -/
theorem Coherent.measure (h : Coherent s) {p : SyncPacket} {t1Prime : Arrival} {t2 : Reading}
    {accepted : Bool} (hphase : s.receiver = .measure p t1Prime t2) (hcalls : t.calls = s.calls)
    (hdrawn : t.drawn = s.drawn)
    (hmeasurements : t.measurements = s.measurements ++ [⟨p.seq, t1Prime, t2, accepted⟩])
    (hafter : t.receiver.afterMeasure = true) (hreceiver : ReceiverOk t) : Coherent t := by
  have hbefore := h.receiverOk
  rw [ReceiverOk, hphase] at hbefore
  obtain ⟨hepoch, hquiet, rfl, hnonzero, hseq⟩ := hbefore
  obtain ⟨⟨hlast, hdrew, hunmeasured⟩, hfresh⟩ :=
    h.armed hquiet (by rw [hphase]; rfl) hnonzero
  refine
    { lone := fun w v hw _ ↦ absurd (by rw [hcalls]; exact hquiet w) hw
      single := by rw [hcalls]; exact h.single
      lastCall := ?_
      phaseOk := ?_
      armed := ?_
      receiverOk := hreceiver
      earlier := ?_
      coherent := ?_
      ordered := ?_ }
  · intro w c hc
    rw [hcalls, hquiet w] at hc
    cases hc
  · intro w c hc
    rw [hcalls, hquiet w] at hc
    cases hc
  · intro _ hopen
    rw [hafter] at hopen
    cases hopen
  · intro e he
    rw [hdrawn]
    rw [hmeasurements] at he
    rcases List.mem_append.mp he with hold | hnew
    · exact h.earlier e hold
    · rw [List.mem_singleton.mp hnew]
      change s.attributes.pendingT2.call < s.drawn.length
      omega
  · intro e he
    rw [hdrawn]
    rw [hmeasurements] at he
    rcases List.mem_append.mp he with hold | hnew
    · exact h.coherent e hold
    · rw [List.mem_singleton.mp hnew, hseq]
      exact ⟨hdrew, hfresh.trans hepoch.symm⟩
  · rw [hmeasurements]
    refine List.pairwise_append.mpr ⟨h.ordered, List.pairwise_singleton _ _, fun e he d hd ↦ ?_⟩
    rw [List.mem_singleton.mp hd]
    exact hunmeasured e he

omit [DecidableEq τ] in
/-- Each step of `on_receive`. -/
theorem Coherent.receiverStep {smooth : ℤ → ℤ → ℤ} (h : Coherent s)
    (hguard : Exclusive s .handle) (hstep : s.receiverStep smooth = some t) : Coherent t := by
  have hreceiver := h.receiverOk
  unfold ReceiverOk at hreceiver
  unfold Slave.receiverStep at hstep
  split at hstep
  case h_1 => cases hstep
  case h_2 p hphase =>
    cases hstep
    exact h.of_receiver_moved rfl rfl rfl rfl rfl rfl (fun _ ↦ by rw [hphase]; rfl) rfl
  case h_3 p t1Prime hphase =>
    cases hstep
    rw [hphase] at hreceiver
    rw [Exclusive, hphase] at hguard
    refine h.of_receiver_moved rfl rfl rfl rfl rfl rfl (fun _ ↦ by rw [hphase]; rfl) ?_
    by_cases hzero : s.attributes.pendingT2.ns = 0
    · simp only [ReceiverOk, if_pos hzero]
    · simp only [ReceiverOk, if_neg hzero]
      refine ⟨hreceiver, ?_⟩
      by_cases hmay : p.seq = s.attributes.pendingSeq ∨ ∃ w, ∃ c ∈ s.calls w, c.seq = p.seq
      · exact Or.inl ⟨hguard hzero hmay, trivial, hzero⟩
      · push Not at hmay
        exact Or.inr hmay
  case h_4 p t1Prime t2 hphase =>
    cases hstep
    rw [hphase] at hreceiver
    refine h.of_receiver_moved rfl rfl rfl rfl rfl rfl (fun _ ↦ by rw [hphase]; rfl) ?_
    by_cases hseq : p.seq = s.attributes.pendingSeq
    · obtain ⟨hepoch, ⟨hquiet, hcurrent, hnonzero⟩ | ⟨hother, -⟩⟩ := hreceiver
      · simp only [ReceiverOk, hseq, ne_eq, not_true_eq_false, if_false]
        exact ⟨hepoch, hquiet, hcurrent, hnonzero, trivial⟩
      · exact absurd hseq hother
    · simp only [ReceiverOk, ne_eq, hseq, not_false_eq_true, if_true]
  case h_5 p t1Prime t2 hphase =>
    cases hstep
    rw [hphase] at hreceiver
    obtain ⟨-, hquiet, -⟩ := hreceiver
    refine h.measure hphase rfl rfl rfl ?_ ?_
    · split_ifs <;> rfl
    · simp only [ReceiverOk]
      split_ifs <;> exact hquiet
  case h_6 raw hphase =>
    cases hstep
    rw [hphase] at hreceiver
    exact h.of_quiet hreceiver rfl rfl rfl (fun hopen ↦ by cases hopen) hreceiver
  case h_7 raw ts hphase =>
    cases hstep
    rw [hphase] at hreceiver
    exact h.of_quiet hreceiver rfl rfl rfl (fun hopen ↦ by cases hopen) hreceiver
  case h_8 raw hphase =>
    cases hstep
    rw [hphase] at hreceiver
    exact h.of_quiet hreceiver rfl rfl rfl (fun hopen ↦ by cases hopen) hreceiver
  case h_9 hphase =>
    cases hstep
    rw [hphase] at hreceiver
    exact h.of_quiet hreceiver rfl rfl rfl (fun _ ↦ rfl) trivial

/-- Each step of an exclusive run keeps the invariant. -/
theorem coherent_step {smooth : ℤ → ℤ → ℤ} (s : Slave τ) (action : SlaveAction τ) (t : Slave τ)
    (h : Coherent s) (hguard : Exclusive s action) (hstep : slaveStep smooth s action = some t) :
    Coherent t := by
  cases action with
  | elapse d =>
    cases hstep
    exact h.of_receiver_moved rfl rfl rfl rfl rfl rfl id h.receiverOk
  | request w =>
    simp only [slaveStep] at hstep
    split at hstep
    · cases hstep
      exact h.draw w hguard.1 hguard.2
    · cases hstep
  | resync w =>
    -- `resync` is a call within another one, which is not quiet
    simp only [slaveStep, hguard.1 w] at hstep
    cases hstep
  | proceed w =>
    simp only [slaveStep] at hstep
    split at hstep
    case h_1 => cases hstep
    case h_2 c outer hcalls =>
      cases hstep
      exact h.callStep hcalls
  | fails w =>
    simp only [slaveStep] at hstep
    split at hstep
    case h_1 => cases hstep
    case h_2 c outer hcalls => exact h.failStep hcalls hstep
  | receive p =>
    simp only [slaveStep] at hstep
    split_ifs at hstep with hidle
    cases hstep
    exact h.of_receiver_moved rfl rfl rfl rfl rfl rfl (fun _ ↦ by rw [hidle.1]; rfl) trivial
  | handle => exact h.receiverStep hguard hstep

end Steps

theorem coherent_of_reaches [DecidableEq τ] {smooth : ℤ → ℤ → ℤ} {clock steady : ℤ} {s : Slave τ}
    (hrun : Reaches (slaveStep smooth) Exclusive (Slave.initial τ clock steady) s) : Coherent s :=
  hrun.invariant coherent_step (coherent_initial τ clock steady)

end VehicleComm.Channel
