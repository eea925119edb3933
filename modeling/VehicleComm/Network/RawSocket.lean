import VehicleComm.Library.GuardedRun
import VehicleComm.Network.Frame

/-!
# The receiver of the raw socket

`raw_socket_engine.cpp` from `engine_init` on: the socket is bound, `start_receiving` makes it
asynchronous, and its thread registers itself as the owner, ignores `SIGIO`, blocks it, and waits
for it with `sigtimedwait`. Each of these calls is a step; packets arrive in between.

Of the kernel: a packet that arrives is queued. It raises `SIGIO` when the socket is asynchronous
and has an owner. The signal is discarded when it is ignored and not blocked, and pending otherwise;
several are one. To ignore it discards the one that is pending. `sigtimedwait` takes the pending
signal; it may end without one, or fail.

The queue is read after a signal only. A packet that arrived before `SIGIO` was blocked raised none
that was left, and waits for another packet (`early_packet_waits`); when there is no such packet, or
another one comes before the first wait, no packet does (`no_lost_wakeup`).

Left out are the errors of `socket`, `if_nametoindex` and `bind`, after which nothing is received,
and the priority of the thread.
-/

set_option autoImplicit false
set_option relaxedAutoImplicit false

namespace VehicleComm.Network

open Library

/-- Where the receiver is: before `start_receiving`, before each of the calls that arm the signal,
at the test of `_running` before the wait, in `sigtimedwait`, at the test of `_running` before a
packet is read, in `recv`, and after the loop. -/
inductive ReceiverPhase
  | bound
  | synchronous
  | unowned
  | unignored
  | unblocked
  | testing
  | waiting
  | draining
  | receiving
  | ended
deriving DecidableEq

/-- The receiver with what the kernel keeps for it, and for the record the packets handed to
`_on_receive` and the numbers of those that arrived before `SIGIO` was blocked and since. -/
structure RawReceiver where
  isOpen : Bool
  running : Bool
  async : Bool
  owned : Bool
  ignored : Bool
  blocked : Bool
  pending : Bool
  queue : List (List UInt8)
  phase : ReceiverPhase
  handled : List (List UInt8)
  early : ℕ
  since : ℕ

/-- What may happen: a packet arrives, the receiver goes on, `sigtimedwait` ends without the signal
or with an error, `recv` fails although there is a packet, and the two steps of `engine_close`. -/
inductive RawAction
  | arrive (packet : List UInt8)
  | proceed
  | timeout
  | waitError
  | recvError
  | stop
  | close
deriving DecidableEq

namespace RawReceiver

/-- The receiver after `engine_init`. -/
def engineInit : RawReceiver where
  isOpen := true
  running := false
  async := false
  owned := false
  ignored := false
  blocked := false
  pending := false
  queue := []
  phase := .bound
  handled := []
  early := 0
  since := 0

/-- The kernel raises `SIGIO`. -/
def raiseSigio (s : RawReceiver) : RawReceiver :=
  if s.ignored ∧ ¬ s.blocked then s else { s with pending := true }

def arrive (s : RawReceiver) (packet : List UInt8) : RawReceiver :=
  let queued : RawReceiver :=
    { s with
      queue := s.queue ++ [packet]
      early := if s.blocked then s.early else s.early + 1
      since := if s.blocked then s.since + 1 else s.since }
  if s.async ∧ s.owned then queued.raiseSigio else queued

/-- What `_on_receive` is given of packets: what fits into a frame, when it is not empty. -/
def handOn (packets : List (List UInt8)) : List (List UInt8) :=
  (packets.map (List.take frameSize)).filter fun bytes ↦ bytes ≠ []

/-- The next step of `start_receiving`, and then of its thread. -/
def proceed (s : RawReceiver) : Option RawReceiver :=
  match s.phase with
  | .bound =>
    if s.isOpen then
      some { s with
        running := true
        phase := .synchronous }
    else some { s with phase := .ended }
  | .synchronous =>
    some { s with
      async := true
      phase := .unowned }
  | .unowned =>
    some { s with
      owned := true
      phase := .unignored }
  | .unignored =>
    some { s with
      ignored := true
      pending := false
      phase := .unblocked }
  | .unblocked =>
    some { s with
      blocked := true
      phase := .testing }
  | .testing => some { s with phase := if s.running then .waiting else .ended }
  | .waiting =>
    if s.pending then
      some { s with
        pending := false
        phase := .draining }
    else none
  | .draining => some { s with phase := if s.running then .receiving else .testing }
  | .receiving =>
    match s.queue with
    | [] => some { s with phase := .testing }
    | packet :: rest =>
      some { s with
        queue := rest
        phase := .draining
        handled := s.handled ++ handOn [packet] }
  | .ended => none

/-- The step function of the receiver. The queue goes with the socket. -/
def step (s : RawReceiver) : RawAction → Option RawReceiver
  | .arrive packet => if s.isOpen then some (s.arrive packet) else none
  | .proceed => s.proceed
  | .timeout => if s.phase = .waiting then some { s with phase := .testing } else none
  | .waitError => if s.phase = .waiting then some { s with phase := .ended } else none
  | .recvError => if s.phase = .receiving then some { s with phase := .testing } else none
  | .stop => some { s with running := false }
  | .close =>
    some { s with
      isOpen := false
      queue := [] }

/-- While the receiver waits and no `SIGIO` is pending, no packet does. -/
def WakesUp (s : RawReceiver) : Prop := s.phase = .waiting → s.pending = false → s.queue = []

/-- When the receiver is about to wait, no packet has arrived before `SIGIO` was blocked, or another
one since; and `recv` fails only when there is no packet, or the signal of one is pending. -/
def Notified (s : RawReceiver) : RawAction → Prop
  | .proceed => s.phase = .testing → s.running = true → s.isOpen = true → s.early = 0 ∨ 0 < s.since
  | .recvError => s.queue = [] ∨ s.pending = true
  | .arrive _ | .timeout | .waitError | .stop | .close => True

instance (s : RawReceiver) : (action : RawAction) → Decidable (s.Notified action)
  | .proceed => inferInstanceAs (Decidable (_ → _ → _ → _ ∨ _))
  | .recvError => inferInstanceAs (Decidable (_ ∨ _))
  | .arrive _ | .timeout | .waitError | .stop | .close => isTrue trivial

/-! ### What each phase knows -/

/-- The socket raises `SIGIO`, and none is discarded. -/
def Armed (s : RawReceiver) : Prop := s.async = true ∧ s.owned = true ∧ s.blocked = true

/-- No packet is queued, or a signal is pending. -/
def Quiet (s : RawReceiver) : Prop := s.queue = [] ∨ s.pending = true

/-- `SIGIO` was not blocked so far. -/
def Silent (s : RawReceiver) : Prop := s.blocked = false ∧ s.since = 0

def PhaseSound (s : RawReceiver) : ReceiverPhase → Prop
  | .bound | .synchronous => s.Silent ∧ s.owned = false ∧ s.pending = false
  | .unowned => s.Silent ∧ s.owned = false ∧ s.pending = false ∧ s.async = true
  | .unignored => s.Silent ∧ s.async = true ∧ s.owned = true
  | .unblocked =>
    s.Silent ∧ s.async = true ∧ s.owned = true ∧ s.ignored = true ∧ s.pending = false
  | .testing => s.Armed ∧ (s.running = true → s.early = 0 ∨ 0 < s.since → s.Quiet)
  | .waiting => s.Armed ∧ s.Quiet
  | .draining | .receiving => s.Armed ∧ 0 < s.since
  | .ended => True

/-- Until the first packet after `SIGIO` was blocked, none is read and no blocked signal is
pending. -/
structure Sound (s : RawReceiver) : Prop where
  phase : s.PhaseSound s.phase
  closed : s.isOpen = false → s.queue = []
  unread : s.since = 0 → s.isOpen = true → s.queue.length = s.early
  unraised : s.since = 0 → s.blocked = true → s.pending = false

variable {s t : RawReceiver}

theorem sound_engineInit : engineInit.Sound where
  phase := ⟨⟨rfl, rfl⟩, rfl, rfl⟩
  closed := fun _ ↦ rfl
  unread := fun _ _ ↦ rfl
  unraised := fun _ _ ↦ rfl

/-! ### A packet arrives -/

section Arrival

variable (s : RawReceiver) (packet : List UInt8)

@[simp] theorem phase_arrive : (s.arrive packet).phase = s.phase := by
  simp only [arrive, raiseSigio]
  split_ifs <;> rfl

@[simp] theorem isOpen_arrive : (s.arrive packet).isOpen = s.isOpen := by
  simp only [arrive, raiseSigio]
  split_ifs <;> rfl

@[simp] theorem async_arrive : (s.arrive packet).async = s.async := by
  simp only [arrive, raiseSigio]
  split_ifs <;> rfl

@[simp] theorem owned_arrive : (s.arrive packet).owned = s.owned := by
  simp only [arrive, raiseSigio]
  split_ifs <;> rfl

@[simp] theorem ignored_arrive : (s.arrive packet).ignored = s.ignored := by
  simp only [arrive, raiseSigio]
  split_ifs <;> rfl

@[simp] theorem blocked_arrive : (s.arrive packet).blocked = s.blocked := by
  simp only [arrive, raiseSigio]
  split_ifs <;> rfl

@[simp] theorem queue_arrive : (s.arrive packet).queue = s.queue ++ [packet] := by
  simp only [arrive, raiseSigio]
  split_ifs <;> rfl

@[simp] theorem early_arrive :
    (s.arrive packet).early = if s.blocked then s.early else s.early + 1 := by
  simp only [arrive, raiseSigio]
  split_ifs <;> rfl

@[simp] theorem since_arrive :
    (s.arrive packet).since = if s.blocked then s.since + 1 else s.since := by
  simp only [arrive, raiseSigio]
  split_ifs <;> rfl

/-- A signal is pending when one was, or this packet raised one that is not discarded. -/
@[simp] theorem pending_arrive : (s.arrive packet).pending =
    (s.pending || (s.async && s.owned && (!s.ignored || s.blocked))) := by
  simp only [arrive, raiseSigio]
  split_ifs <;> simp_all

end Arrival

theorem Silent.arrive (h : s.Silent) (packet : List UInt8) : (s.arrive packet).Silent :=
  ⟨by simp [h.1], by simp [h.1, h.2]⟩

theorem Armed.arrive (h : s.Armed) (packet : List UInt8) : (s.arrive packet).Armed :=
  ⟨by simp [h.1], by simp [h.2.1], by simp [h.2.2]⟩

/-- When the socket is armed, a packet leaves a signal pending. -/
theorem Armed.quiet_arrive (h : s.Armed) (packet : List UInt8) : (s.arrive packet).Quiet := by
  obtain ⟨hasync, howned, hblocked⟩ := h
  right
  simp [hasync, howned, hblocked]

theorem PhaseSound.arrive {phase : ReceiverPhase} (h : s.PhaseSound phase) (packet : List UInt8) :
    (s.arrive packet).PhaseSound phase := by
  cases phase with
  | bound =>
    obtain ⟨hsilent, howned, hpending⟩ := h
    exact ⟨hsilent.arrive packet, by simp [howned], by simp [howned, hpending]⟩
  | synchronous =>
    obtain ⟨hsilent, howned, hpending⟩ := h
    exact ⟨hsilent.arrive packet, by simp [howned], by simp [howned, hpending]⟩
  | unowned =>
    obtain ⟨hsilent, howned, hpending, hasync⟩ := h
    exact ⟨hsilent.arrive packet, by simp [howned], by simp [howned, hpending], by simp [hasync]⟩
  | unignored =>
    obtain ⟨hsilent, hasync, howned⟩ := h
    exact ⟨hsilent.arrive packet, by simp [hasync], by simp [howned]⟩
  | unblocked =>
    obtain ⟨hsilent, hasync, howned, hignored, hpending⟩ := h
    exact ⟨hsilent.arrive packet, by simp [hasync], by simp [howned], by simp [hignored],
      by simp [hpending, hignored, hsilent.1]⟩
  | testing => exact ⟨h.1.arrive packet, fun _ _ ↦ h.1.quiet_arrive packet⟩
  | waiting => exact ⟨h.1.arrive packet, h.1.quiet_arrive packet⟩
  | draining => exact ⟨h.1.arrive packet, by simp [h.1.2.2]⟩
  | receiving => exact ⟨h.1.arrive packet, by simp [h.1.2.2]⟩
  | ended => trivial

theorem Sound.arrive (h : s.Sound) (hopen : s.isOpen = true) (packet : List UInt8) :
    (s.arrive packet).Sound where
  phase := by
    rw [phase_arrive]
    exact h.phase.arrive packet
  closed := by
    intro hclosed
    rw [isOpen_arrive, hopen] at hclosed
    contradiction
  unread := by
    intro hsince _
    rw [since_arrive] at hsince
    rw [queue_arrive, early_arrive, List.length_append, List.length_singleton]
    split_ifs at hsince ⊢ with hblocked
    rw [h.unread hsince hopen]
  unraised := by
    intro hsince hblocked
    rw [since_arrive] at hsince
    rw [blocked_arrive] at hblocked
    rw [if_pos hblocked] at hsince
    contradiction

/-! ### The receiver goes on -/

/-- Before the receiver waits. With no early packet or a later one nothing is queued unheard. -/
theorem Sound.quiet_of_notified (h : s.Sound) (hphase : s.phase = .testing)
    (hrunning : s.running = true) (hguard : s.Notified .proceed) : s.Quiet := by
  have htesting := h.phase
  rw [hphase] at htesting
  by_cases hopen : s.isOpen = true
  · exact htesting.2 hrunning (hguard hphase hrunning hopen)
  · exact Or.inl (h.closed (Bool.eq_false_iff.mpr hopen))

/-- When `SIGIO` is blocked, either nothing is queued or some packet came early. -/
theorem Sound.quiet_of_silent (h : s.Sound) (hsince : s.since = 0) (hearly : s.early = 0) :
    s.queue = [] := by
  by_cases hopen : s.isOpen = true
  · have hlength := h.unread hsince hopen
    rw [hearly] at hlength
    exact List.length_eq_zero_iff.mp hlength
  · exact h.closed (Bool.eq_false_iff.mpr hopen)

/-- A signal that is taken was raised by a packet after `SIGIO` was blocked. -/
theorem Sound.since_of_pending (h : s.Sound) (hblocked : s.blocked = true)
    (hpending : s.pending = true) : 0 < s.since := by
  by_contra hnone
  have hlost := h.unraised (Nat.eq_zero_of_not_pos hnone) hblocked
  rw [hpending] at hlost
  contradiction

theorem Sound.proceed (h : s.Sound) (hguard : s.Notified .proceed)
    (hstep : s.proceed = some t) : t.Sound := by
  have hphase := h.phase
  rcases hat : s.phase <;> rw [hat] at hphase <;> simp only [RawReceiver.proceed, hat] at hstep
  case bound =>
    split_ifs at hstep
    · obtain rfl := Option.some.inj hstep
      exact ⟨hphase, h.closed, h.unread, h.unraised⟩
    · obtain rfl := Option.some.inj hstep
      exact ⟨trivial, h.closed, h.unread, h.unraised⟩
  case synchronous =>
    obtain rfl := Option.some.inj hstep
    obtain ⟨hsilent, howned, hpending⟩ := hphase
    exact ⟨⟨hsilent, howned, hpending, rfl⟩, h.closed, h.unread, h.unraised⟩
  case unowned =>
    obtain rfl := Option.some.inj hstep
    obtain ⟨hsilent, -, -, hasync⟩ := hphase
    exact ⟨⟨hsilent, hasync, rfl⟩, h.closed, h.unread, h.unraised⟩
  case unignored =>
    obtain rfl := Option.some.inj hstep
    obtain ⟨hsilent, hasync, howned⟩ := hphase
    exact ⟨⟨hsilent, hasync, howned, rfl, rfl⟩, h.closed, h.unread, fun _ _ ↦ rfl⟩
  case unblocked =>
    obtain rfl := Option.some.inj hstep
    obtain ⟨⟨-, hsince⟩, hasync, howned, -, hpending⟩ := hphase
    refine ⟨⟨⟨hasync, howned, rfl⟩, fun _ hnone ↦ ?_⟩, h.closed, h.unread, fun _ _ ↦ hpending⟩
    rcases hnone with hearly | hlater
    · exact Or.inl (h.quiet_of_silent hsince hearly)
    · exact absurd hsince hlater.ne'
  case testing =>
    obtain rfl := Option.some.inj hstep
    refine ⟨?_, h.closed, h.unread, h.unraised⟩
    by_cases hrunning : s.running = true
    · rw [if_pos hrunning]
      exact ⟨hphase.1, h.quiet_of_notified hat hrunning hguard⟩
    · rw [if_neg hrunning]
      trivial
  case waiting =>
    split_ifs at hstep with hpending
    obtain rfl := Option.some.inj hstep
    have hsince := h.since_of_pending hphase.1.2.2 hpending
    exact ⟨⟨hphase.1, hsince⟩, h.closed, h.unread, fun _ _ ↦ rfl⟩
  case draining =>
    obtain rfl := Option.some.inj hstep
    refine ⟨?_, h.closed, h.unread, h.unraised⟩
    by_cases hrunning : s.running = true
    · rw [if_pos hrunning]
      exact hphase
    · rw [if_neg hrunning]
      exact ⟨hphase.1, fun hrun ↦ absurd hrun hrunning⟩
  case receiving =>
    obtain ⟨harmed, hsince⟩ := hphase
    split at hstep
    · next hqueue =>
      obtain rfl := Option.some.inj hstep
      exact ⟨⟨harmed, fun _ _ ↦ Or.inl hqueue⟩, h.closed, h.unread, h.unraised⟩
    · next packet rest hqueue =>
      obtain rfl := Option.some.inj hstep
      refine ⟨⟨harmed, hsince⟩, fun hclosed ↦ ?_, fun hnone ↦ ?_, h.unraised⟩
      · have hempty := h.closed hclosed
        rw [hqueue] at hempty
        contradiction
      · exact absurd hnone hsince.ne'
  case ended => contradiction

theorem PhaseSound.stop {phase : ReceiverPhase} (h : s.PhaseSound phase) :
    PhaseSound { s with running := false } phase := by
  cases phase with
  | testing => exact ⟨h.1, fun hrun ↦ by contradiction⟩
  | bound | synchronous | unowned | unignored | unblocked => exact h
  | waiting | draining | receiving | ended => exact h

theorem PhaseSound.close {phase : ReceiverPhase} (h : s.PhaseSound phase) :
    PhaseSound { s with isOpen := false, queue := [] } phase := by
  cases phase with
  | testing => exact ⟨h.1, fun _ _ ↦ Or.inl rfl⟩
  | waiting => exact ⟨h.1, Or.inl rfl⟩
  | bound | synchronous | unowned | unignored | unblocked | draining | receiving | ended => exact h

theorem Sound.step (h : s.Sound) {action : RawAction} (hguard : s.Notified action)
    (hstep : s.step action = some t) : t.Sound := by
  have hphase := h.phase
  cases action with
  | arrive packet =>
    simp only [RawReceiver.step] at hstep
    split_ifs at hstep with hopen
    obtain rfl := Option.some.inj hstep
    exact h.arrive hopen packet
  | proceed => exact h.proceed hguard hstep
  | timeout =>
    simp only [RawReceiver.step] at hstep
    split_ifs at hstep with hwaiting
    obtain rfl := Option.some.inj hstep
    rw [hwaiting] at hphase
    exact ⟨⟨hphase.1, fun _ _ ↦ hphase.2⟩, h.closed, h.unread, h.unraised⟩
  | waitError =>
    simp only [RawReceiver.step] at hstep
    split_ifs at hstep with hwaiting
    obtain rfl := Option.some.inj hstep
    exact ⟨trivial, h.closed, h.unread, h.unraised⟩
  | recvError =>
    simp only [RawReceiver.step] at hstep
    split_ifs at hstep with hreceiving
    obtain rfl := Option.some.inj hstep
    rw [hreceiving] at hphase
    exact ⟨⟨hphase.1, fun _ _ ↦ hguard⟩, h.closed, h.unread, h.unraised⟩
  | stop =>
    obtain rfl := Option.some.inj hstep
    exact ⟨hphase.stop, h.closed, h.unread, h.unraised⟩
  | close =>
    obtain rfl := Option.some.inj hstep
    exact ⟨hphase.close, fun _ ↦ rfl, fun _ hopen ↦ by contradiction, h.unraised⟩

/-- The invariant of the runs in which the receiver is notified. -/
theorem sound_of_reaches (hrun : Reaches step Notified engineInit s) : s.Sound :=
  hrun.invariant (fun _ _ _ h hguard hstep ↦ h.step hguard hstep) sound_engineInit

theorem Sound.wakesUp (h : s.Sound) : s.WakesUp := by
  intro hwaiting hpending
  have hphase := h.phase
  rw [hwaiting] at hphase
  rcases hphase.2 with hempty | hraised
  · exact hempty
  · rw [hpending] at hraised
    contradiction

/-! ### The receiver alone -/

/-- Nothing happens but the steps of the receiver. -/
def Alone (_ : RawReceiver) (action : RawAction) : Prop := action = .proceed

instance (s : RawReceiver) (action : RawAction) : Decidable (s.Alone action) :=
  inferInstanceAs (Decidable (_ = _))

theorem handOn_append (packets more : List (List UInt8)) :
    handOn (packets ++ more) = handOn packets ++ handOn more := by
  simp only [handOn, List.map_append, List.filter_append]

/-- In the inner loop, it hands on all packets. Induction on the queue. -/
theorem drains (packets : List (List UInt8)) : ∀ {s : RawReceiver}, s.phase = .draining →
    s.running = true → s.queue = packets →
      ∃ t, Reaches step Alone s t ∧ t.queue = [] ∧ t.handled = s.handled ++ handOn packets := by
  induction packets with
  | nil =>
    intro s hphase hrunning hqueue
    have htest : s.step .proceed = some { s with phase := .receiving } := by
      simp [step, RawReceiver.proceed, hphase, hrunning]
    have hread : step { s with phase := .receiving } .proceed =
        some { s with phase := .testing } := by
      simp [step, RawReceiver.proceed, hqueue]
    refine ⟨_, ((Reaches.refl s).next .proceed rfl htest).next .proceed rfl hread, hqueue, ?_⟩
    exact (List.append_nil _).symm
  | cons packet rest ih =>
    intro s hphase hrunning hqueue
    have htest : s.step .proceed = some { s with phase := .receiving } := by
      simp [step, RawReceiver.proceed, hphase, hrunning]
    have hread : step { s with phase := .receiving } .proceed =
        some { s with
          queue := rest
          phase := .draining
          handled := s.handled ++ handOn [packet] } := by
      simp [step, RawReceiver.proceed, hqueue]
    obtain ⟨t, hrest, hempty, hhandled⟩ := ih (s := { s with
      queue := rest
      phase := .draining
      handled := s.handled ++ handOn [packet] }) rfl hrunning rfl
    have htested : Reaches step Alone s _ := (Reaches.refl s).next .proceed rfl htest
    have hfirst := htested.next .proceed rfl hread
    refine ⟨t, hfirst.trans hrest, hempty, ?_⟩
    rw [hhandled, List.append_assoc, ← handOn_append, List.singleton_append]

/-- While it waits, what is queued needs no other packet to be handed on. -/
theorem Sound.delivers (h : s.Sound) (hwaiting : s.phase = .waiting) (hrunning : s.running = true) :
    ∃ t, Reaches RawReceiver.step Alone s t ∧ t.queue = [] ∧
      t.handled = s.handled ++ handOn s.queue := by
  by_cases hpending : s.pending = true
  · have hwake : s.step .proceed = some { s with
        pending := false
        phase := .draining } := by
      simp [RawReceiver.step, RawReceiver.proceed, hwaiting, hpending]
    obtain ⟨t, hdrain, hempty, hhandled⟩ := drains s.queue (s := { s with
      pending := false
      phase := .draining }) rfl hrunning rfl
    exact ⟨t, ((Reaches.refl s).next .proceed rfl hwake).trans hdrain, hempty, hhandled⟩
  · have hempty := h.wakesUp hwaiting (Bool.eq_false_iff.mpr hpending)
    refine ⟨s, Reaches.refl s, hempty, ?_⟩
    rw [hempty]
    exact (List.append_nil _).symm

/-- A receiver that goes to wait with a packet queued and no signal pending does not wake up. -/
theorem lost_of_wait (htesting : s.phase = .testing) (hrunning : s.running = true)
    (hpending : s.pending = false) (hqueue : s.queue ≠ []) :
    ∃ t, s.step .proceed = some t ∧ ¬ t.WakesUp := by
  refine ⟨{ s with phase := .waiting }, by simp [step, RawReceiver.proceed, htesting, hrunning], ?_⟩
  intro hwakes
  exact hqueue (hwakes rfl hpending)

/-- Assumes: a step that breaks the guard. It leads to a packet that waits for another one. -/
theorem Sound.lost (h : s.Sound) {action : RawAction} (hguard : ¬ s.Notified action)
    (hrunning : s.running = true) (hstep : s.step action = some t) :
    ∃ u, Reaches RawReceiver.step Unguarded t u ∧ ¬ u.WakesUp := by
  cases action with
  | arrive packet => exact absurd trivial hguard
  | proceed =>
    simp only [Notified, Classical.not_imp, not_or] at hguard
    obtain ⟨htesting, -, hopen, hearly, hsince⟩ := hguard
    have hnone : s.since = 0 := Nat.eq_zero_of_not_pos hsince
    have hphase := h.phase
    rw [htesting] at hphase
    have hqueue : s.queue ≠ [] := by
      intro hempty
      have hlength := h.unread hnone hopen
      rw [hempty] at hlength
      exact hearly hlength.symm
    obtain ⟨u, hwait, hlost⟩ :=
      lost_of_wait htesting hrunning (h.unraised hnone hphase.1.2.2) hqueue
    obtain rfl : t = u := Option.some.inj (hstep.symm.trans hwait)
    exact ⟨t, Reaches.refl t, hlost⟩
  | timeout => exact absurd trivial hguard
  | waitError => exact absurd trivial hguard
  | recvError =>
    simp only [RawReceiver.step] at hstep
    split_ifs at hstep
    obtain rfl := Option.some.inj hstep
    simp only [Notified, not_or] at hguard
    obtain ⟨u, hwait, hlost⟩ := lost_of_wait (s := { s with phase := .testing }) rfl hrunning
      (Bool.eq_false_iff.mpr hguard.2) hguard.1
    exact ⟨u, (Reaches.refl _).next .proceed trivial hwait, hlost⟩
  | stop => exact absurd trivial hguard
  | close => exact absurd trivial hguard

/-- No packet waits for another one. Assumes: a run in which the receiver is notified (`Notified`).
While it waits without a pending signal no packet is queued; what is queued while it waits is handed
on without another packet. The first step that breaks the condition leads to a packet that waits for
another one. -/
theorem no_lost_wakeup (hrun : Reaches step Notified engineInit s) :
    s.WakesUp ∧
      (s.phase = .waiting → s.running = true → ∃ t, Reaches step Alone s t ∧ t.queue = [] ∧
        t.handled = s.handled ++ handOn s.queue) ∧
      ∀ action t, ¬ s.Notified action → s.running = true → s.step action = some t →
        ∃ u, Reaches step Unguarded t u ∧ ¬ u.WakesUp := by
  have hsound := sound_of_reaches hrun
  refine ⟨hsound.wakesUp, hsound.delivers, ?_⟩
  intro action t hguard hrunning hstep
  exact hsound.lost hguard hrunning hstep

/-- The steps of `start_receiving` and its thread up to the wait. -/
def armingActions : List RawAction := List.replicate 6 .proceed

/-- A packet comes before the socket has an owner, and another one after `SIGIO` was blocked. -/
def twoPackets : List RawAction :=
  .arrive [1, 2, 3] :: List.replicate 5 .proceed ++ [.arrive [4, 5], .proceed]

/-- `no_lost_wakeup` there: the second packet wakes the receiver up for both. -/
theorem no_lost_wakeup_twoPackets : ∃ s t : RawReceiver, Reaches step Notified engineInit s ∧
    s.phase = .waiting ∧ s.queue = [[1, 2, 3], [4, 5]] ∧ s.WakesUp ∧
      Reaches step Alone s t ∧ t.queue = [] ∧ t.handled = [[1, 2, 3], [4, 5]] := by
  have hvalues : (run step Notified engineInit twoPackets).map
      (fun s ↦ (s.phase, s.running, s.queue, s.handled)) =
      some (.waiting, true, [[1, 2, 3], [4, 5]], []) := by decide +kernel
  obtain ⟨s, hs, hvalues⟩ := Option.map_eq_some_iff.mp hvalues
  simp only [Prod.mk.injEq] at hvalues
  obtain ⟨hwaiting, hrunning, hqueue, hhandled⟩ := hvalues
  have hrun := reaches_of_run twoPackets hs
  obtain ⟨hwakes, hdelivers, -⟩ := no_lost_wakeup hrun
  obtain ⟨t, halone, hempty, hall⟩ := hdelivers hwaiting hrunning
  rw [hhandled, hqueue] at hall
  exact ⟨s, t, hrun, hwaiting, hqueue, hwakes, halone, hempty, hall.trans (by decide)⟩

/-- A packet that comes right after `bind` waits for another one, also when the wait times out. -/
theorem early_packet_waits : ¬ ∀ s, Reaches step Unguarded engineInit s → s.WakesUp := by
  intro hall
  have hvalues : (run step Unguarded engineInit
      (.arrive [1, 2, 3] :: armingActions ++ [.timeout, .proceed])).map
      (fun s ↦ (s.phase, s.pending, s.queue)) =
      some (.waiting, false, [[1, 2, 3]]) := by decide +kernel
  obtain ⟨s, hs, hvalues⟩ := Option.map_eq_some_iff.mp hvalues
  simp only [Prod.mk.injEq] at hvalues
  obtain ⟨hwaiting, hpending, hqueue⟩ := hvalues
  have hempty := hall s (reaches_of_run _ hs) hwaiting hpending
  rw [hqueue] at hempty
  contradiction

end RawReceiver

end VehicleComm.Network
