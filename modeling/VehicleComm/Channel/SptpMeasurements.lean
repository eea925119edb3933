import VehicleComm.Channel.SptpExclusive

/-!
# Measurements

What the measurements of a slave are made of, and how often they are made. Along exclusive runs
(`Exclusive`) every measurement uses a reading of the call that drew its sequence number, with no
correction of the clock between its two readings (`sync_measurements_coherent`), and no two
measurements belong to one call, so that each sequence number is applied at most once
(`sync_applied_once`). The numbers are those of the atomic counter, of 32 bits, so the second is
about runs with fewer than `2 ^ 32` requests; with more a number comes back, and an answer to its
first request would pass for one to the second.

Both are invariants of the slave alone: the packets that arrive are arbitrary, whoever sent them and
however often. Two runs that are not exclusive break the one and the other.
-/

set_option autoImplicit false
set_option relaxedAutoImplicit false

namespace VehicleComm.Channel

open Library

variable {τ : Type*}

/-! ### What an accepted SYNC used -/

/-- Every accepted SYNC used a reading `t2` made by the call that drew its sequence number, with no
correction of the clock between that reading and the reading `t1_prime`. -/
def CoherentMeasurements (s : Slave τ) : Prop :=
  ∀ e ∈ s.measurements, e.accepted = true →
    s.drawn[e.t2.call]? = some e.seq ∧ e.t2.epoch = e.t1Prime.epoch

/-- Measurements belong together. Assumes: a run in which no request begins while another one is in
progress or a SYNC is past its load of `_pending_t2_ns`, and no SYNC that may pass loads a pending
reading while a request is in progress. In every state each accepted measurement is made of the
reading of the request whose number the SYNC has, and its two readings of the clock were made with
no correction in between. -/
theorem sync_measurements_coherent [DecidableEq τ] (smooth : ℤ → ℤ → ℤ) (clock steady : ℤ)
    {s : Slave τ}
    (hrun : Reaches (slaveStep smooth) Exclusive (Slave.initial τ clock steady) s) :
    CoherentMeasurements s :=
  fun e he _ ↦ (coherent_of_reaches hrun).coherent e he

def eighths (current delay : ℤ) : ℤ := (7 * current + delay).tdiv 8

/-- A request notices a change of quadrant in its `_send`; the request made there goes first, and
the SYNC for it comes after both have returned. -/
def nestedActions : List (SlaveAction Unit) :=
  List.replicate 1 (SlaveAction.request ()) ++ List.replicate 4 (SlaveAction.proceed ()) ++
  [SlaveAction.resync (), SlaveAction.elapse 7] ++ List.replicate 9 (SlaveAction.proceed ()) ++
  [SlaveAction.receive ⟨2, 1007, 1000⟩] ++ List.replicate 4 SlaveAction.handle

theorem not_coherentMeasurements_nested :
    ∃ s, run (slaveStep eighths) Unguarded (Slave.initial Unit 1000 0) nestedActions = some s ∧
      ¬ CoherentMeasurements s := by
  have hrun : (run (slaveStep eighths) Unguarded (Slave.initial Unit 1000 0) nestedActions).map
      (fun s ↦ (s.drawn, s.measurements)) =
      some ([1, 2], [⟨2, ⟨1007, 0⟩, ⟨1000, 0, 0⟩, true⟩]) := by decide +kernel
  obtain ⟨s, hs, hvalues⟩ := Option.map_eq_some_iff.mp hrun
  rw [Prod.mk.injEq] at hvalues
  obtain ⟨hdrawn, hmeasurements⟩ := hvalues
  refine ⟨s, hs, fun hcoherent ↦ ?_⟩
  have hown := (hcoherent ⟨2, ⟨1007, 0⟩, ⟨1000, 0, 0⟩, true⟩
    (by rw [hmeasurements]; exact List.mem_singleton_self _) rfl).1
  rw [hdrawn] at hown
  cases hown

instance [Fintype τ] (s : Slave τ) : Decidable (Quiet s) :=
  inferInstanceAs (Decidable (∀ w, s.calls w = []))

instance [Fintype τ] (s : Slave τ) (action : SlaveAction τ) : Decidable (Exclusive s action) :=
  match action with
  | .request _ | .resync _ => inferInstanceAs (Decidable (Quiet s ∧ s.receiver.afterLoad = false))
  | .handle => by
    unfold Exclusive
    cases s.receiver <;> infer_instance
  | .elapse _ | .proceed _ | .fails _ | .receive _ => isTrue trivial

def exclusiveActions : List (SlaveAction Unit) :=
  [SlaveAction.request ()] ++ List.replicate 7 (SlaveAction.proceed ()) ++
  [SlaveAction.elapse 7, SlaveAction.receive ⟨1, 1007, 1000⟩] ++ List.replicate 6 SlaveAction.handle

theorem sync_measurements_coherent_exclusive :
    ∃ s, run (slaveStep eighths) Exclusive (Slave.initial Unit 1000 0) exclusiveActions = some s ∧
      s.measurements.length = 1 ∧ CoherentMeasurements s := by
  have hrun : (run (slaveStep eighths) Exclusive (Slave.initial Unit 1000 0)
      exclusiveActions).map (fun s ↦ s.measurements.length) = some 1 := by decide +kernel
  obtain ⟨s, hs, hlength⟩ := Option.map_eq_some_iff.mp hrun
  exact ⟨s, hs, hlength, sync_measurements_coherent eighths 1000 0 (reaches_of_run _ hs)⟩

/-! ### One correction for each request -/

/-- A step draws a sequence number or leaves the drawn ones alone. -/
theorem slaveStep_drawn [DecidableEq τ] {smooth : ℤ → ℤ → ℤ} {s t : Slave τ}
    {action : SlaveAction τ} (hstep : slaveStep smooth s action = some t) :
    (t.drawn = s.drawn ∧ t.attributes.nextSeq = s.attributes.nextSeq) ∨
      (t.drawn = s.drawn ++ [s.attributes.nextSeq] ∧
        t.attributes.nextSeq = (s.attributes.nextSeq + 1) % 2 ^ 32) := by
  cases action with
  | elapse d =>
    cases hstep
    exact Or.inl ⟨rfl, rfl⟩
  | request w =>
    simp only [slaveStep] at hstep
    split at hstep
    · cases hstep
      exact Or.inr ⟨rfl, rfl⟩
    · cases hstep
  | resync w =>
    simp only [slaveStep] at hstep
    split at hstep
    · cases hstep
      exact Or.inr ⟨rfl, rfl⟩
    · cases hstep
  | proceed w =>
    simp only [slaveStep] at hstep
    split at hstep
    case h_1 => cases hstep
    case h_2 c outer hcalls =>
      cases hstep
      refine Or.inl ⟨?_, ?_⟩
      · unfold Slave.callStep
        cases c.phase <;> rfl
      · unfold Slave.callStep
        cases c.phase with
        | sent tx =>
          cases tx with
          | none => rfl
          | some reading =>
            simp only [Slave.endCall]
            split_ifs <;> rfl
        | _ => rfl
  | fails w =>
    simp only [slaveStep] at hstep
    split at hstep
    case h_1 => cases hstep
    case h_2 c outer hcalls =>
      unfold Slave.failStep at hstep
      split at hstep
      all_goals cases hstep
      all_goals exact Or.inl ⟨rfl, rfl⟩
  | receive p =>
    simp only [slaveStep] at hstep
    split_ifs at hstep
    cases hstep
    exact Or.inl ⟨rfl, rfl⟩
  | handle =>
    simp only [slaveStep, Slave.receiverStep] at hstep
    split at hstep
    all_goals cases hstep
    all_goals refine Or.inl ⟨rfl, ?_⟩
    case h_5 =>
      simp only [Attributes.measure]
      split_ifs <;> rfl
    all_goals rfl

/-- The sequence numbers count from one, modulo `2 ^ 32`. -/
def NumberedFromOne (s : Slave τ) : Prop :=
  s.attributes.nextSeq = (s.drawn.length + 1) % 2 ^ 32 ∧
    ∀ call seq, s.drawn[call]? = some seq → seq = (call + 1) % 2 ^ 32

theorem numberedFromOne_of_reaches [DecidableEq τ] {smooth : ℤ → ℤ → ℤ}
    {guard : Slave τ → SlaveAction τ → Prop} {clock steady : ℤ} {s : Slave τ}
    (hrun : Reaches (slaveStep smooth) guard (Slave.initial τ clock steady) s) :
    NumberedFromOne s := by
  refine hrun.invariant (fun s action t hinv _ hstep ↦ ?_) ⟨rfl, fun _ _ hget ↦ by cases hget⟩
  obtain ⟨hnext, hdrew⟩ := hinv
  rcases slaveStep_drawn hstep with ⟨hdrawn, hsame⟩ | ⟨hdrawn, hincremented⟩
  · exact ⟨by rw [hsame, hdrawn, hnext], by rw [hdrawn]; exact hdrew⟩
  · refine ⟨by rw [hincremented, hdrawn, hnext, List.length_append]; simp [Nat.add_mod], ?_⟩
    intro call seq hseq
    rw [hdrawn] at hseq
    rcases Nat.lt_or_ge call s.drawn.length with hold | hnew
    · rw [List.getElem?_append_left hold] at hseq
      exact hdrew call seq hseq
    · obtain ⟨hlength, hget⟩ := List.getElem?_eq_some_iff.mp hseq
      rw [List.length_append, List.length_singleton] at hlength
      have hlast : call = s.drawn.length := by omega
      subst hlast
      rw [← hget, List.getElem_append_right le_rfl]
      simpa using hnext

/-- Fewer than `2 ^ 32` requests draw different numbers. -/
theorem NumberedFromOne.injective {s : Slave τ} (h : NumberedFromOne s)
    (hbound : s.drawn.length < 2 ^ 32) {first later seq : ℕ}
    (hfirst : s.drawn[first]? = some seq) (hlater : s.drawn[later]? = some seq) :
    first = later := by
  have hlt := (List.getElem?_eq_some_iff.mp hfirst).1
  have hlt' := (List.getElem?_eq_some_iff.mp hlater).1
  have heq : (first + 1) % 2 ^ 32 = (later + 1) % 2 ^ 32 :=
    (h.2 first seq hfirst).symm.trans (h.2 later seq hlater)
  rw [Nat.mod_eq_of_lt (by omega), Nat.mod_eq_of_lt (by omega)] at heq
  omega

/-- An accepted measurement that `on_receive` has not counted yet. -/
def ReceiverPhase.uncounted : ReceiverPhase → ℕ
  | .jumpRead _ | .jumpSet .. | .finish _ => 1
  | _ => 0

/-- An accepted measurement for which the clock has yet to be corrected. -/
def ReceiverPhase.uncorrected : ReceiverPhase → ℕ
  | .jumpRead _ | .jumpSet .. => 1
  | _ => 0

def acceptedCount (s : Slave τ) : ℕ := s.measurements.countP fun e ↦ e.accepted

/-- `_sync_count` counts the accepted measurements, and the clock was corrected for some of them. -/
structure CountsAccepted (s : Slave τ) : Prop where
  counted : s.attributes.syncCount + s.receiver.uncounted = acceptedCount s
  corrected : s.jumps + s.receiver.uncorrected ≤ acceptedCount s

/-- For each sequence number at most one SYNC is applied, and none after one was accepted or
dropped as an outlier; only accepted measurements are counted or correct the clock. -/
structure AppliedOnce (s : Slave τ) : Prop extends CountsAccepted s where
  once : s.measurements.Pairwise fun first later ↦ first.seq = later.seq → later.accepted = false

/-- The callers of `send_sync_request` leave the receive thread and its count as they are. -/
theorem slaveStep_receiver_unchanged [DecidableEq τ] {smooth : ℤ → ℤ → ℤ} {s t : Slave τ}
    {action : SlaveAction τ} (hreceive : ∀ p, action ≠ .receive p) (hhandle : action ≠ .handle)
    (hstep : slaveStep smooth s action = some t) :
    t.attributes.syncCount = s.attributes.syncCount ∧ t.receiver = s.receiver ∧
      t.jumps = s.jumps ∧ t.measurements = s.measurements := by
  cases action with
  | elapse d =>
    cases hstep
    exact ⟨rfl, rfl, rfl, rfl⟩
  | request w =>
    simp only [slaveStep] at hstep
    split at hstep
    all_goals cases hstep
    exact ⟨rfl, rfl, rfl, rfl⟩
  | resync w =>
    simp only [slaveStep] at hstep
    split at hstep
    all_goals cases hstep
    exact ⟨rfl, rfl, rfl, rfl⟩
  | proceed w =>
    simp only [slaveStep] at hstep
    split at hstep
    case h_1 => cases hstep
    case h_2 c outer hcalls =>
      cases hstep
      unfold Slave.callStep
      cases c.phase with
      | sent tx =>
        refine ⟨?_, rfl, rfl, rfl⟩
        cases tx with
        | none => rfl
        | some reading =>
          simp only [Slave.endCall]
          split_ifs <;> rfl
      | _ => exact ⟨rfl, rfl, rfl, rfl⟩
  | fails w =>
    simp only [slaveStep] at hstep
    split at hstep
    case h_1 => cases hstep
    case h_2 c outer hcalls =>
      unfold Slave.failStep at hstep
      split at hstep
      all_goals cases hstep
      all_goals exact ⟨rfl, rfl, rfl, rfl⟩
  | receive p => exact absurd rfl (hreceive p)
  | handle => exact absurd rfl hhandle

/-- A step that leaves the receive thread and its count alone. -/
theorem CountsAccepted.of_receiver_unchanged {s t : Slave τ} (h : CountsAccepted s)
    (hcount : t.attributes.syncCount = s.attributes.syncCount) (hreceiver : t.receiver = s.receiver)
    (hjumps : t.jumps = s.jumps) (hmeasurements : t.measurements = s.measurements) :
    CountsAccepted t := by
  refine ⟨?_, ?_⟩
  · rw [hcount, hreceiver, h.counted, acceptedCount, acceptedCount, hmeasurements]
  · rw [hjumps, hreceiver, acceptedCount, hmeasurements]
    exact h.corrected

theorem Attributes.measure_syncCount (smooth : ℤ → ℤ → ℤ) (a : Attributes) (raw delay : ℤ) :
    (a.measure smooth raw delay).syncCount = a.syncCount := by
  simp only [Attributes.measure]
  split_ifs <;> rfl

/-- Each step of `on_receive`. -/
theorem CountsAccepted.receiverStep {smooth : ℤ → ℤ → ℤ} {s t : Slave τ} (h : CountsAccepted s)
    (hstep : s.receiverStep smooth = some t) : CountsAccepted t := by
  obtain ⟨hcounted, hcorrected⟩ := h
  unfold Slave.receiverStep at hstep
  split at hstep
  case h_1 => cases hstep
  case h_2 p hphase =>
    cases hstep
    rw [hphase] at hcounted hcorrected
    exact ⟨hcounted, hcorrected⟩
  case h_3 p t1Prime hphase =>
    cases hstep
    rw [hphase] at hcounted hcorrected
    constructor
    · split_ifs <;> exact hcounted
    · split_ifs <;> exact hcorrected
  case h_4 p t1Prime t2 hphase =>
    cases hstep
    rw [hphase] at hcounted hcorrected
    constructor
    · split_ifs <;> exact hcounted
    · split_ifs <;> exact hcorrected
  case h_5 p t1Prime t2 hphase =>
    cases hstep
    rw [hphase] at hcounted hcorrected
    generalize rawOffset t1Prime.ns p.t1 p.t2Prime t2.ns = raw
    generalize rawDelay t1Prime.ns p.t1 p.t2Prime t2.ns = delay
    simp only [ReceiverPhase.uncounted, ReceiverPhase.uncorrected, acceptedCount,
      add_zero] at hcounted hcorrected
    -- an accepted measurement adds one, which is still to be counted
    refine ⟨?_, ?_⟩
    · simp only [acceptedCount, List.countP_append, List.countP_singleton,
        Attributes.measure_syncCount]
      cases isOutlier raw <;> cases needsJump raw <;> simp [ReceiverPhase.uncounted, hcounted]
    · simp only [acceptedCount, List.countP_append, List.countP_singleton]
      cases isOutlier raw <;> cases needsJump raw <;> simp [ReceiverPhase.uncorrected] <;> omega
  case h_6 raw hphase =>
    cases hstep
    rw [hphase] at hcounted hcorrected
    exact ⟨hcounted, hcorrected⟩
  case h_7 raw ts hphase =>
    cases hstep
    rw [hphase] at hcounted hcorrected
    exact ⟨hcounted, hcorrected⟩
  case h_8 raw hphase =>
    cases hstep
    rw [hphase] at hcounted hcorrected
    exact ⟨hcounted, hcorrected⟩
  case h_9 hphase =>
    cases hstep
    rw [hphase] at hcounted hcorrected
    exact ⟨hcounted, hcorrected⟩

/-- A step keeps the count. -/
theorem countsAccepted_step [DecidableEq τ] {smooth : ℤ → ℤ → ℤ} {s t : Slave τ}
    {action : SlaveAction τ} (h : CountsAccepted s) (hstep : slaveStep smooth s action = some t) :
    CountsAccepted t := by
  by_cases hhandle : action = .handle
  · subst hhandle
    exact h.receiverStep hstep
  by_cases hreceive : ∃ p, action = .receive p
  · -- a SYNC that arrives finds the receive thread idle
    obtain ⟨p, rfl⟩ := hreceive
    obtain ⟨hcounted, hcorrected⟩ := h
    simp only [slaveStep] at hstep
    split_ifs at hstep with hidle
    cases hstep
    rw [hidle.1] at hcounted hcorrected
    exact ⟨hcounted, hcorrected⟩
  · obtain ⟨hcount, hreceiver, hjumps, hmeasurements⟩ :=
      slaveStep_receiver_unchanged (fun p hp ↦ hreceive ⟨p, hp⟩) hhandle hstep
    exact h.of_receiver_unchanged hcount hreceiver hjumps hmeasurements

theorem countsAccepted_of_reaches [DecidableEq τ] {smooth : ℤ → ℤ → ℤ}
    {guard : Slave τ → SlaveAction τ → Prop} {clock steady : ℤ} {s : Slave τ}
    (hrun : Reaches (slaveStep smooth) guard (Slave.initial τ clock steady) s) :
    CountsAccepted s :=
  hrun.invariant (fun _ _ _ h _ hstep ↦ countsAccepted_step h hstep) ⟨rfl, le_rfl⟩

/-- `on_receive` leaves the clock, the offset and the count alone but for an accepted
measurement. -/
theorem receiverStep_unapplied {smooth : ℤ → ℤ → ℤ} {s t : Slave τ}
    (hstep : s.receiverStep smooth = some t) (hnone : s.receiver.uncounted = 0) :
    t.attributes.clock = s.attributes.clock ∧
      t.attributes.currentOffset = s.attributes.currentOffset ∧
      t.attributes.syncCount = s.attributes.syncCount := by
  unfold Slave.receiverStep at hstep
  split at hstep
  case h_1 => cases hstep
  case h_5 =>
    cases hstep
    simp only [Attributes.measure]
    split_ifs <;> exact ⟨rfl, rfl, rfl⟩
  case h_6 raw hphase =>
    rw [hphase] at hnone
    cases hnone
  case h_7 raw ts hphase =>
    rw [hphase] at hnone
    cases hnone
  case h_8 raw hphase =>
    rw [hphase] at hnone
    cases hnone
  all_goals
    cases hstep
    exact ⟨rfl, rfl, rfl⟩

/-- No request is counted twice. Assumes: a run as in `sync_measurements_coherent`, with fewer than
`2 ^ 32` requests. In every state each sequence number is applied at most once, and never after it
was accepted or dropped; and the receive thread moves the clock, the offset and the count for an
accepted measurement only. -/
theorem sync_applied_once [DecidableEq τ] (smooth : ℤ → ℤ → ℤ) (clock steady : ℤ) {s : Slave τ}
    (hrun : Reaches (slaveStep smooth) Exclusive (Slave.initial τ clock steady) s)
    (hbound : s.drawn.length < 2 ^ 32) :
    AppliedOnce s ∧ ∀ t, slaveStep smooth s .handle = some t → s.receiver.uncounted = 0 →
      t.attributes.clock = s.attributes.clock ∧
        t.attributes.currentOffset = s.attributes.currentOffset ∧
        t.attributes.syncCount = s.attributes.syncCount := by
  have h := coherent_of_reaches hrun
  have hnumbered := numberedFromOne_of_reaches hrun
  refine ⟨⟨countsAccepted_of_reaches hrun, ?_⟩, fun t hstep hnone ↦
    receiverStep_unapplied hstep hnone⟩
  refine h.ordered.imp_of_mem fun {first later} hfirst hlater hlt hseq ↦ ?_
  -- equal numbers would be of one call, and measurements are of ever later calls
  have hdrew := (h.coherent first hfirst).1
  have hdrew' := (h.coherent later hlater).1
  rw [hseq] at hdrew
  exact absurd (hnumbered.injective hbound hdrew hdrew') hlt.ne

/-- A SYNC is handled before `_send` has returned, and comes again after the last store. -/
def earlySyncActions : List (SlaveAction Unit) :=
  [SlaveAction.request ()] ++ List.replicate 6 (SlaveAction.proceed ()) ++
  [SlaveAction.receive ⟨1, 1000, 1000⟩] ++ List.replicate 6 SlaveAction.handle ++
  [SlaveAction.proceed (), SlaveAction.receive ⟨1, 1000, 1000⟩] ++
  List.replicate 5 SlaveAction.handle

/-- The one request is counted twice. -/
theorem not_appliedOnce_earlySync :
    ∃ s, run (slaveStep eighths) Unguarded (Slave.initial Unit 1000 0) earlySyncActions = some s ∧
      s.drawn.length < 2 ^ 32 ∧ s.attributes.syncCount = 2 ∧ ¬ AppliedOnce s := by
  have hrun : (run (slaveStep eighths) Unguarded (Slave.initial Unit 1000 0)
      earlySyncActions).map (fun s ↦ (s.drawn, s.attributes.syncCount, s.measurements)) =
      some ([1], 2, [⟨1, ⟨1000, 0⟩, ⟨1000, 0, 0⟩, true⟩, ⟨1, ⟨1000, 0⟩, ⟨1000, 0, 0⟩, true⟩]) := by
    decide +kernel
  obtain ⟨s, hs, hvalues⟩ := Option.map_eq_some_iff.mp hrun
  simp only [Prod.mk.injEq] at hvalues
  obtain ⟨hdrawn, hcount, hmeasurements⟩ := hvalues
  refine ⟨s, hs, by rw [hdrawn]; decide, hcount, fun happlied ↦ ?_⟩
  have honce := happlied.once
  rw [hmeasurements] at honce
  have hlater := List.rel_of_pairwise_cons honce (List.mem_singleton_self _) rfl
  cases hlater

theorem sync_applied_once_exclusive :
    ∃ s, run (slaveStep eighths) Exclusive (Slave.initial Unit 1000 0) exclusiveActions = some s ∧
      s.drawn.length = 1 ∧ s.attributes.syncCount = 1 ∧ AppliedOnce s := by
  have hrun : (run (slaveStep eighths) Exclusive (Slave.initial Unit 1000 0)
      exclusiveActions).map (fun s ↦ (s.drawn.length, s.attributes.syncCount)) = some (1, 1) := by
    decide +kernel
  obtain ⟨s, hs, hvalues⟩ := Option.map_eq_some_iff.mp hrun
  rw [Prod.mk.injEq] at hvalues
  obtain ⟨hlength, hcount⟩ := hvalues
  exact ⟨s, hs, hlength, hcount,
    (sync_applied_once eighths 1000 0 (reaches_of_run _ hs) (by rw [hlength]; decide)).1⟩

end VehicleComm.Channel
