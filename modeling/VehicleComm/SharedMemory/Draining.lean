import VehicleComm.Library.Exhaustion
import VehicleComm.SharedMemory.Order

/-!
# The ring drains

The ring has one mutex and a semaphore on which writers wait for readers and one per reader on which
readers wait for writers. No order in which the threads are scheduled makes them wait for each
other: when no new call of `write_slot` begins, every receive thread and every writer has only so
many steps left (`work`), and when none of them can take one, all is done (`Drained`): every writer
has returned, every receive thread waits for the next frame, all slots are free, and every frame
that was to be written has been, once, and has reached every handler it is for (`ring_drains`).

The receive thread is within the handler for any time but returns from it. This is an assumption on
the layers above, and not one that they meet in every run: a handler that stops a responder waits
for it, and the responder may be waiting for a slot of the ring (`SmartData.Responding`). The runs
before are those of `broadcast_in_order`, all receive threads have been started, and the frames,
with those of the calls in progress, are fewer than `2 ^ 64`.
-/

set_option autoImplicit false
set_option relaxedAutoImplicit false

namespace VehicleComm.SharedMemory

open Library

variable {m : ℕ} {τ : Type*}

/-- Guard of a run in which only the receive threads and the calls of `write_slot` go on. -/
def Internal (_ : System m τ) : Action m τ → Prop
  | .receive _ | .writeSlot _ => True
  | _ => False

/-! ### The work left -/

/-- The steps of a receive thread until it waits for a token. -/
def readerWork : ReaderPhase → ℕ
  | .notStarted | .waitPending | .stopped => 0
  | .loopTest => 1
  | .handler _ => 2
  | .postEmpty _ => 3
  | .unlock .. => 4
  | .locked => 5
  | .waitMutex => 6
  | .testRunning => 7

/-- The steps of a writer until it has returned. A post of a pending semaphore is counted with the
eight steps that the token will cause. -/
def writerWork : WriterPhase m → ℕ
  | .idle => 0
  | .posting i => 9 * (m + 1 - i) + 1
  | .fill .. => 9 * (m + 1) + 2
  | .waitMutex .. => 9 * (m + 1) + 3
  | .waitEmpty .. => 9 * (m + 1) + 4

theorem readerWork_afterRead (copied : Option Delivery) : readerWork (afterRead copied) ≤ 2 := by
  cases copied with
  | none => exact Nat.zero_le 2
  | some delivery =>
    rw [afterRead]
    split_ifs
    · exact one_le_two
    · exact le_rfl

section Work

variable [Fintype τ]

/-- The steps that the receive threads and the writers have left. -/
def work (s : System m τ) : ℕ :=
  tally writerWork s.writers + tally readerWork s.readers + tally (8 * ·) s.pending

variable {s t : System m τ}

/-- A receive thread that moves on without taking a token has less left. -/
theorem work_lt_of_reader_moved {i : Fin (m + 1)} {phase : ReaderPhase}
    (hwriters : t.writers = s.writers) (hpending : t.pending = s.pending)
    (hreaders : t.readers = Function.update s.readers i phase)
    (hless : readerWork phase < readerWork (s.readers i)) : work t < work s := by
  have htally := tally_update readerWork s.readers i phase
  unfold work
  rw [hwriters, hpending, hreaders]
  omega

theorem receiveStep_work {i : Fin (m + 1)} (hstep : receiveStep s i = some t) :
    work t < work s := by
  unfold receiveStep at hstep
  split at hstep
  case h_1 hreader =>
    obtain rfl := Option.some.inj hstep
    refine work_lt_of_reader_moved (i := i) rfl rfl rfl ?_
    rw [hreader]
    split_ifs <;> exact Nat.one_pos
  case h_2 hreader =>
    split_ifs at hstep with htoken
    obtain rfl := Option.some.inj hstep
    -- the token is worth the steps it causes
    have hreaders := tally_update readerWork s.readers i .testRunning
    have hpending := tally_update (8 * ·) s.pending i (s.pending i - 1)
    simp only [hreader, readerWork] at hreaders
    simp only [work]
    omega
  case h_3 hreader =>
    obtain rfl := Option.some.inj hstep
    refine work_lt_of_reader_moved (i := i) rfl rfl rfl ?_
    rw [hreader]
    split_ifs <;> decide
  case h_4 hreader =>
    split_ifs at hstep
    obtain rfl := Option.some.inj hstep
    exact work_lt_of_reader_moved (i := i) rfl rfl rfl (by rw [hreader]; decide)
  case h_5 hreader =>
    obtain rfl := Option.some.inj hstep
    exact work_lt_of_reader_moved (i := i) rfl rfl rfl (by rw [hreader]; exact Nat.lt_succ_self 4)
  case h_6 shouldPostEmpty copied hreader =>
    obtain rfl := Option.some.inj hstep
    refine work_lt_of_reader_moved (i := i) rfl rfl rfl ?_
    have hafter := readerWork_afterRead copied
    rw [hreader]
    split_ifs
    · exact Nat.lt_succ_self 3
    · exact hafter.trans_lt (by decide : 2 < 4)
  case h_7 copied hreader =>
    obtain rfl := Option.some.inj hstep
    refine work_lt_of_reader_moved (i := i) rfl rfl rfl ?_
    rw [hreader]
    exact (readerWork_afterRead copied).trans_lt (Nat.lt_succ_self 2)
  case h_8 delivery hreader =>
    obtain rfl := Option.some.inj hstep
    exact work_lt_of_reader_moved (i := i) rfl rfl rfl (by rw [hreader]; exact Nat.lt_succ_self 1)
  case h_9 => cases hstep

variable [DecidableEq τ]

/-- A writer that moves on without posting a token has less left. -/
theorem work_lt_of_writer_moved {w : τ} {phase : WriterPhase m} (hreaders : t.readers = s.readers)
    (hpending : t.pending = s.pending) (hwriters : t.writers = Function.update s.writers w phase)
    (hless : writerWork phase < writerWork (s.writers w)) : work t < work s := by
  have htally := tally_update writerWork s.writers w phase
  unfold work
  rw [hwriters, hpending, hreaders]
  omega

theorem writeSlotStep_work {w : τ} (hstep : writeSlotStep s w = some t) : work t < work s := by
  unfold writeSlotStep at hstep
  split at hstep
  case h_1 => cases hstep
  case h_2 p request hwriter =>
    split_ifs at hstep
    obtain rfl := Option.some.inj hstep
    exact work_lt_of_writer_moved (w := w) rfl rfl rfl (by rw [hwriter]; exact Nat.lt_succ_self _)
  case h_3 p request hwriter =>
    split_ifs at hstep
    obtain rfl := Option.some.inj hstep
    exact work_lt_of_writer_moved (w := w) rfl rfl rfl (by rw [hwriter]; exact Nat.lt_succ_self _)
  case h_4 p request hwriter =>
    obtain rfl := Option.some.inj hstep
    exact work_lt_of_writer_moved (w := w) rfl rfl rfl (by rw [hwriter]; exact Nat.lt_succ_self _)
  case h_5 j hwriter =>
    split_ifs at hstep with hj
    · obtain rfl := Option.some.inj hstep
      have hwriters := tally_update writerWork s.writers w (.posting (j + 1))
      have hpending := tally_update (8 * ·) s.pending ⟨j, hj⟩ (s.pending ⟨j, hj⟩ + 1)
      simp only [hwriter, writerWork] at hwriters
      simp only [work]
      omega
    · obtain rfl := Option.some.inj hstep
      exact work_lt_of_writer_moved (w := w) rfl rfl rfl (by rw [hwriter]; exact Nat.succ_pos _)

/-- Every step of a receive thread or a writer leaves less work. -/
theorem exhausting_internal :
    Exhausting (step (m := m) (τ := τ)) Internal (fun _ ↦ True) work where
  keeps := fun _ _ _ _ _ _ ↦ trivial
  uses := fun s action t _ hguard hstep ↦ by
    cases action with
    | receive i => exact receiveStep_work hstep
    | writeSlot w => exact writeSlotStep_work hstep
    | engineInit i => exact hguard.elim
    | startReceiving i => exact hguard.elim
    | engineClose i => exact hguard.elim
    | callWriteSlot w p request => exact hguard.elim

end Work

/-! ### The frames that are to be written -/

/-- What a writer is about to write. -/
def WriterPhase.announced (phase : WriterPhase m) : Multiset (Fin (m + 1) × SlotRecord) :=
  match phase.requested with
  | some (p, request) => {(p, request.record)}
  | none => 0

section Writers

variable [Fintype τ]

/-- The frames that calls of `write_slot` in progress have not written. -/
def outstanding (s : System m τ) : Multiset (Fin (m + 1) × SlotRecord) :=
  ∑ w, (s.writers w).announced

/-- The frames written and those about to be. -/
def frames (s : System m τ) : Multiset (Fin (m + 1) × SlotRecord) :=
  ↑s.history.written + outstanding s

variable [DecidableEq τ] {s t : System m τ}

/-- A writer that moves on exchanges what it was about to write. -/
theorem outstanding_of_writer_moved {w : τ} (phase : WriterPhase m)
    (hwriters : t.writers = Function.update s.writers w phase) :
    outstanding t + (s.writers w).announced = outstanding s + phase.announced := by
  have hold := Finset.add_sum_erase Finset.univ (fun v ↦ (s.writers v).announced)
    (Finset.mem_univ w)
  have hnew := Finset.add_sum_erase Finset.univ (fun v ↦ (t.writers v).announced)
    (Finset.mem_univ w)
  have hrest : ∑ v ∈ Finset.univ.erase w, (t.writers v).announced =
      ∑ v ∈ Finset.univ.erase w, (s.writers v).announced :=
    Finset.sum_congr rfl fun v hv ↦ by
      rw [hwriters, Function.update_of_ne (Finset.ne_of_mem_erase hv)]
  have hself : (t.writers w).announced = phase.announced := by
    rw [hwriters, Function.update_self]
  rw [hrest, hself] at hnew
  rw [outstanding, outstanding, ← hold, ← hnew]
  abel

/-- A writer that moves on without writing is about to write what it was about to write. -/
theorem frames_of_writer_moved {w : τ} {phase : WriterPhase m}
    (hwritten : t.history.written = s.history.written)
    (hwriters : t.writers = Function.update s.writers w phase)
    (hsame : phase.announced = (s.writers w).announced) : frames t = frames s := by
  have hmoved := outstanding_of_writer_moved _ hwriters
  rw [hsame] at hmoved
  rw [frames, frames, hwritten, add_right_cancel hmoved]

omit [Fintype τ] [DecidableEq τ] in
theorem receiveStep_frames {i : Fin (m + 1)} (hstep : receiveStep s i = some t) :
    t.history.written = s.history.written := by
  unfold receiveStep at hstep
  split at hstep <;> try split_ifs at hstep
  all_goals cases hstep
  all_goals rfl

theorem writeSlotStep_frames {w : τ} (hstep : writeSlotStep s w = some t) :
    frames t = frames s := by
  unfold writeSlotStep at hstep
  split at hstep
  case h_1 => cases hstep
  case h_2 p request hwriter =>
    split_ifs at hstep
    obtain rfl := Option.some.inj hstep
    exact frames_of_writer_moved (w := w) rfl rfl (by rw [hwriter]; rfl)
  case h_3 p request hwriter =>
    split_ifs at hstep
    obtain rfl := Option.some.inj hstep
    exact frames_of_writer_moved (w := w) rfl rfl (by rw [hwriter]; rfl)
  case h_4 p request hwriter =>
    obtain rfl := Option.some.inj hstep
    -- the frame moves from the writer to the end of what is written
    have hmoved := outstanding_of_writer_moved (s := s) (w := w) (.posting 0)
      (t := { s with
        region := s.region.publish request
        writers := Function.update s.writers w (.posting 0)
        history := { s.history with written := s.history.written ++ [(p, request.record)] } }) rfl
    rw [hwriter] at hmoved
    have hposting : (WriterPhase.posting 0 : WriterPhase m).announced = 0 := rfl
    have hfill : (WriterPhase.fill p request).announced = {(p, request.record)} := rfl
    rw [hposting, hfill, add_zero] at hmoved
    rw [frames, frames, ← hmoved, ← Multiset.coe_add, Multiset.coe_singleton]
    abel
  case h_5 j hwriter =>
    split_ifs at hstep with hj
    all_goals
      obtain rfl := Option.some.inj hstep
      exact frames_of_writer_moved (w := w) rfl rfl (by rw [hwriter]; rfl)

/-- A step of a receive thread or a writer loses no frame and adds none. -/
theorem frames_step {action : Action m τ} (hinternal : Internal s action)
    (hstep : step s action = some t) : frames t = frames s := by
  cases action with
  | receive i =>
    obtain ⟨-, -, hwriters⟩ := receiveStep_frame hstep
    rw [frames, frames, outstanding, outstanding, receiveStep_frames hstep, hwriters]
  | writeSlot w => exact writeSlotStep_frames hstep
  | engineInit i => exact hinternal.elim
  | startReceiving i => exact hinternal.elim
  | engineClose i => exact hinternal.elim
  | callWriteSlot w p request => exact hinternal.elim

theorem frames_of_reaches (hrun : Reaches step Internal s t) : frames t = frames s :=
  Reaches.invariant (P := fun r ↦ frames r = frames s)
    (fun _ _ _ hsame hinternal hstep ↦ (frames_step hinternal hstep).trans hsame) hrun rfl

omit [Fintype τ] in
theorem written_prefix_of_reaches (hrun : Reaches step Internal s t) :
    s.history.written <+: t.history.written :=
  Reaches.invariant (P := fun r ↦ s.history.written <+: r.history.written)
    (fun _ _ _ hgrown _ hstep ↦ hgrown.trans (written_prefix_of_step hstep)) hrun List.prefix_rfl

end Writers

/-! ### Receive threads that stay -/

/-- A receive thread that has started runs on: its process has attached and has not begun to
close. -/
def Serving (s : System m τ) : Prop :=
  ∀ i, s.readers i ≠ .notStarted →
    s.mains i = .attached ∧ s.running i = true ∧ s.readers i ≠ .stopped

theorem serving_create : Serving (create m τ) := fun _ hstarted ↦ (hstarted rfl).elim

theorem afterRead_runs (copied : Option Delivery) :
    afterRead copied ≠ .notStarted ∧ afterRead copied ≠ .stopped := by
  cases copied with
  | none => simp [afterRead]
  | some delivery =>
    rw [afterRead]
    split_ifs
    all_goals simp

/-- The thread that takes a step of the receive loop has started, and it stops only when it is told
to. -/
theorem receiveStep_moved {s t : System m τ} {i : Fin (m + 1)}
    (hstep : receiveStep s i = some t) :
    s.readers i ≠ .notStarted ∧ t.mains = s.mains ∧ t.running = s.running ∧
      ∃ phase, t.readers = Function.update s.readers i phase ∧ phase ≠ .notStarted ∧
        (s.running i = true → phase ≠ .stopped) := by
  unfold receiveStep at hstep
  split at hstep
  case h_1 hreader =>
    obtain rfl := Option.some.inj hstep
    refine ⟨by simp [hreader], rfl, rfl, _, rfl, by split_ifs <;> exact nofun, fun hrun ↦ ?_⟩
    rw [if_pos hrun]
    exact nofun
  case h_2 hreader =>
    split_ifs at hstep
    obtain rfl := Option.some.inj hstep
    exact ⟨by simp [hreader], rfl, rfl, _, rfl, nofun, fun _ ↦ nofun⟩
  case h_3 hreader =>
    obtain rfl := Option.some.inj hstep
    refine ⟨by simp [hreader], rfl, rfl, _, rfl, by split_ifs <;> exact nofun, fun _ ↦ ?_⟩
    split_ifs
    all_goals exact nofun
  case h_4 hreader =>
    split_ifs at hstep
    obtain rfl := Option.some.inj hstep
    exact ⟨by simp [hreader], rfl, rfl, _, rfl, nofun, fun _ ↦ nofun⟩
  case h_5 hreader =>
    obtain rfl := Option.some.inj hstep
    exact ⟨by simp [hreader], rfl, rfl, _, rfl, nofun, fun _ ↦ nofun⟩
  case h_6 shouldPostEmpty copied hreader =>
    obtain rfl := Option.some.inj hstep
    obtain ⟨hstarted, hgoing⟩ := afterRead_runs copied
    refine ⟨by simp [hreader], rfl, rfl, _, rfl, ?_, fun _ ↦ ?_⟩
    · split_ifs
      · exact nofun
      · exact hstarted
    · split_ifs
      · exact nofun
      · exact hgoing
  case h_7 copied hreader =>
    obtain rfl := Option.some.inj hstep
    obtain ⟨hstarted, hgoing⟩ := afterRead_runs copied
    exact ⟨by simp [hreader], rfl, rfl, _, rfl, hstarted, fun _ ↦ hgoing⟩
  case h_8 delivery hreader =>
    obtain rfl := Option.some.inj hstep
    exact ⟨by simp [hreader], rfl, rfl, _, rfl, nofun, fun _ ↦ nofun⟩
  case h_9 => cases hstep

theorem Serving.receive {s t : System m τ} (h : Serving s) {i : Fin (m + 1)}
    (hstep : receiveStep s i = some t) : Serving t := by
  obtain ⟨hstarted, hmains, hrunning, phase, hreaders, -, hgoing⟩ := receiveStep_moved hstep
  intro j hj
  rw [hmains, hrunning]
  rw [hreaders] at hj ⊢
  by_cases hji : j = i
  · subst hji
    obtain ⟨hmain, hrun, -⟩ := h j hstarted
    exact ⟨hmain, hrun, by rw [Function.update_self]; exact hgoing hrun⟩
  · rw [Function.update_of_ne hji] at hj ⊢
    exact h j hj

theorem Serving.engineInit {s t : System m τ} (h : Serving s) {i : Fin (m + 1)}
    (hstep : engineInitStep s i = some t) : Serving t := by
  obtain ⟨hmain, -, -⟩ := engineInitStep_frame hstep
  -- the process has not attached, so that its receive thread has not started
  have hkept : ∀ j, s.readers j ≠ .notStarted → j ≠ i := by
    rintro j hj rfl
    rw [(h j hj).1] at hmain
    cases hmain
  unfold engineInitStep at hstep
  split at hstep <;> try split_ifs at hstep
  all_goals cases hstep
  all_goals
    intro j hj
    simp only [Function.update_of_ne (hkept j hj)]
    exact h j hj

theorem Serving.startReceiving {s t : System m τ} (h : Serving s) {i : Fin (m + 1)}
    (hstep : SharedMemory.startReceiving s i = some t) : Serving t := by
  unfold SharedMemory.startReceiving at hstep
  split_ifs at hstep with hready
  obtain rfl := Option.some.inj hstep
  intro j hj
  by_cases hji : j = i
  · subst hji
    simp [hready.1]
  · simp only [Function.update_of_ne hji] at hj ⊢
    exact h j hj

variable [DecidableEq τ]

/-- Each step of a run in which no process closes. -/
theorem serving_step (s : System m τ) (action : Action m τ) (t : System m τ) (h : Serving s)
    (hguard : Steady s action) (hstep : step s action = some t) : Serving t := by
  cases action with
  | engineInit i => exact h.engineInit hstep
  | startReceiving i => exact h.startReceiving hstep
  | engineClose i => exact hguard.elim
  | receive i => exact h.receive hstep
  | callWriteSlot w p request =>
    simp only [step, callWriteSlot] at hstep
    split_ifs at hstep
    obtain rfl := Option.some.inj hstep
    exact h
  | writeSlot w =>
    simp only [step, writeSlotStep] at hstep
    split at hstep <;> try split_ifs at hstep
    all_goals cases hstep
    all_goals exact h

theorem serving_of_reaches {s : System m τ} (hrun : Reaches step Steady (create m τ) s) :
    Serving s :=
  hrun.invariant serving_step serving_create

/-- The receive threads that have started. -/
def AllStarted (s : System m τ) : Prop := ∀ i, s.readers i ≠ .notStarted

theorem allStarted_step (s : System m τ) (action : Action m τ) (t : System m τ) (h : AllStarted s)
    (hinternal : Internal s action) (hstep : step s action = some t) : AllStarted t := by
  cases action with
  | receive i =>
    obtain ⟨-, -, -, phase, hreaders, hstarted, -⟩ := receiveStep_moved hstep
    intro j
    rw [hreaders]
    by_cases hji : j = i
    · rwa [hji, Function.update_self]
    · rw [Function.update_of_ne hji]
      exact h j
  | writeSlot w =>
    simp only [step, writeSlotStep] at hstep
    split at hstep <;> try split_ifs at hstep
    all_goals cases hstep
    all_goals exact h
  | engineInit i => exact hinternal.elim
  | startReceiving i => exact hinternal.elim
  | engineClose i => exact hinternal.elim
  | callWriteSlot w p request => exact hinternal.elim

/-! ### When nothing can move -/

/-- Nothing is left to do: the writers have returned, the receive threads wait for a frame, and the
semaphores are as on an empty ring. -/
structure Drained (s : System m τ) : Prop where
  returned : ∀ w, s.writers w = .idle
  waiting : ∀ i, s.readers i = .waitPending
  mutex : s.ringMutex = 1
  free : s.ringEmpty = slotCount
  pending : ∀ i, s.pending i = 0
  read : ∀ i, s.region.readSeq i = s.region.nextWriteSeq

section Stuck

variable [Fintype τ] {s : System m τ}

omit [Fintype τ] in
/-- What a writer waits for when nothing can move. -/
theorem writer_of_stuck (hstuck : Stuck step Internal s) (w : τ) :
    s.writers w = .idle ∨
      (∃ p request, s.writers w = .waitEmpty p request ∧ s.ringEmpty = 0) ∨
      ∃ p request, s.writers w = .waitMutex p request ∧ s.ringMutex = 0 := by
  have hnone : writeSlotStep s w = none := hstuck (.writeSlot w) trivial
  unfold writeSlotStep at hnone
  split at hnone
  case h_1 hwriter => exact Or.inl hwriter
  case h_2 p request hwriter =>
    split_ifs at hnone with hopen
    exact Or.inr (Or.inl ⟨p, request, hwriter, by omega⟩)
  case h_3 p request hwriter =>
    split_ifs at hnone with hopen
    exact Or.inr (Or.inr ⟨p, request, hwriter, by omega⟩)
  case h_4 => cases hnone
  case h_5 =>
    split_ifs at hnone

omit [Fintype τ] in
/-- What a receive thread waits for when nothing can move. -/
theorem reader_of_stuck (hstuck : Stuck step Internal s) (hserving : Serving s)
    (hstarted : AllStarted s) (i : Fin (m + 1)) :
    (s.readers i = .waitPending ∧ s.pending i = 0) ∨
      (s.readers i = .waitMutex ∧ s.ringMutex = 0) := by
  have hnone : receiveStep s i = none := hstuck (.receive i) trivial
  cases hreader : s.readers i with
  | notStarted => exact absurd hreader (hstarted i)
  | stopped => exact absurd hreader (hserving i (hstarted i)).2.2
  | waitPending =>
    simp only [receiveStep, hreader] at hnone
    split_ifs at hnone with htoken
    exact Or.inl ⟨rfl, by omega⟩
  | waitMutex =>
    simp only [receiveStep, hreader] at hnone
    split_ifs at hnone with hopen
    exact Or.inr ⟨rfl, by omega⟩
  | loopTest | testRunning | locked | unlock | postEmpty | handler =>
    simp [receiveStep, hreader] at hnone

/-- The mutex is open when nothing can move. -/
theorem mutex_of_stuck (h : Accounted s) (hstuck : Stuck step Internal s) (hserving : Serving s)
    (hstarted : AllStarted s) : s.ringMutex = 1 := by
  have hwriters : tally writerHolds s.writers = 0 := by
    refine tally_eq_zero_iff.mpr fun w ↦ ?_
    rcases writer_of_stuck hstuck w with hw | ⟨p, request, hw, -⟩ | ⟨p, request, hw, -⟩
    all_goals rw [hw]; rfl
  have hreaders : tally readerHolds s.readers = 0 := by
    refine tally_eq_zero_iff.mpr fun i ↦ ?_
    rcases reader_of_stuck hstuck hserving hstarted i with ⟨hi, -⟩ | ⟨hi, -⟩
    all_goals rw [hi]; rfl
  have hmains : tally mainHolds s.mains = 0 :=
    tally_eq_zero_iff.mpr fun i ↦ by rw [(hserving i (hstarted i)).1]; rfl
  have hmutex := h.mutex
  rw [mutexHolders, hwriters, hreaders, hmains] at hmutex
  exact hmutex

/-- Threads that cannot move have nothing to do. -/
theorem drained_of_stuck (h : Accounted s) (hstuck : Stuck step Internal s) (hserving : Serving s)
    (hstarted : AllStarted s) : Drained s := by
  have hmutex := mutex_of_stuck h hstuck hserving hstarted
  have hreader : ∀ i, s.readers i = .waitPending ∧ s.pending i = 0 := by
    intro i
    rcases reader_of_stuck hstuck hserving hstarted i with hi | ⟨-, hclosed⟩
    · exact hi
    · omega
  have hwriter : ∀ w, s.writers w = .idle ∨
      ∃ p request, s.writers w = .waitEmpty p request ∧ s.ringEmpty = 0 := by
    intro w
    rcases writer_of_stuck hstuck w with hidle | hempty | ⟨p, request, -, hclosed⟩
    · exact Or.inl hidle
    · exact Or.inr hempty
    · omega
  -- no token is anywhere, so that every process has read everything
  have hread : ∀ i, s.region.readSeq i = s.region.nextWriteSeq := by
    intro i
    have hposts : tally (unposted i) s.writers = 0 := by
      refine tally_eq_zero_iff.mpr fun w ↦ ?_
      rcases hwriter w with hw | ⟨p, request, hw, -⟩
      all_goals rw [hw]; rfl
    have htokens := h.tokens i (by rw [(hserving i (hstarted i)).1]; rfl)
    rw [tokensOf, (hreader i).2, (hreader i).1, hposts] at htokens
    simpa [readerToken] using htokens
  -- no permit is held or owed, so that all are free
  have hfree : s.ringEmpty = slotCount := by
    have hleast : least s.region.readSeq = s.region.nextWriteSeq :=
      least_eq (i := 0) (fun i ↦ (hread i).ge) (hread 0)
    have hheld : permitsHeld s = 0 := by
      refine tally_eq_zero_iff.mpr fun w ↦ ?_
      rcases hwriter w with hw | ⟨p, request, hw, -⟩
      all_goals rw [hw]; rfl
    have howed : postsOwed s = 0 :=
      tally_eq_zero_iff.mpr fun i ↦ by rw [(hreader i).1]; rfl
    have hpermits := h.permits
    omega
  refine ⟨fun w ↦ ?_, fun i ↦ (hreader i).1, hmutex, hfree, fun i ↦ (hreader i).2, hread⟩
  rcases hwriter w with hidle | ⟨p, request, -, hnone⟩
  · exact hidle
  · rw [hnone] at hfree
    cases hfree

end Stuck

section Runs

variable [Fintype τ] {s t : System m τ}

omit [DecidableEq τ] in
theorem Drained.outstanding (h : Drained s) : outstanding s = 0 :=
  Finset.sum_eq_zero fun w _ ↦ by rw [h.returned w]; rfl

omit [DecidableEq τ] [Fintype τ] in
theorem broadcasts_of_internal (s : System m τ) (action : Action m τ)
    (hinternal : Internal s action) : Broadcasts s action := by
  cases action with
  | receive i => exact ⟨trivial, trivial⟩
  | writeSlot w => exact ⟨trivial, trivial⟩
  | engineInit i => exact hinternal.elim
  | startReceiving i => exact hinternal.elim
  | engineClose i => exact hinternal.elim
  | callWriteSlot w p request => exact hinternal.elim

/-- The ring drains. Assumes: a run in which all processes attach first, none closes and all writes
come from `engine_send`, in which all receive threads have started, and which comes to fewer than `2
^ 64` frames with those of the calls in progress; from there on every handler that is called
returns, and there is no new call of `write_slot`. However the threads are scheduled, they stop
within the work that is left, and they can go on until nothing can move. Then the ring is drained,
the frames of the calls in progress have been written, each once, behind those that were there, and
every handler was called with the frames for it. -/
theorem ring_drains (hsize : m < maxComponents) (hrun : Reaches step Broadcasts (create m τ) s)
    (hstarted : AllStarted s)
    (hbound : s.history.written.length + (SharedMemory.outstanding s).card < 2 ^ 64) :
    (∀ n t, ReachesIn step Internal n s t → n ≤ work s) ∧
      ∀ t, Reaches step Internal s t →
        (∃ u, Reaches step Internal t u ∧ Stuck step Internal u) ∧
          (Stuck step Internal t →
            Drained t ∧ s.history.written <+: t.history.written ∧
              (t.history.written : Multiset (Fin (m + 1) × SlotRecord)) =
                s.history.written + SharedMemory.outstanding s ∧
              ∀ i, t.history.handled i = addressed i t.history.written) := by
  refine ⟨fun n t hsteps ↦ ?_, fun t hinternal ↦
    ⟨exhausting_internal.exists_stuck trivial, fun hstuck ↦ ?_⟩⟩
  · have hused := exhausting_internal.add_work_le trivial hsteps
    omega
  have hframes := frames_of_reaches hinternal
  have hall : Reaches step Broadcasts (create m τ) t :=
    hrun.trans (hinternal.mono broadcasts_of_internal)
  have hlength : t.history.written.length < 2 ^ 64 := by
    have hcard := congrArg Multiset.card hframes
    simp only [frames, Multiset.card_add, Multiset.coe_card] at hcard
    omega
  have hsteady : Reaches step Steady (create m τ) t := hall.mono fun _ _ hguard ↦ hguard.1
  have hdrained : Drained t :=
    drained_of_stuck (Steady.accounted hsteady hlength) hstuck (serving_of_reaches hsteady)
      (hinternal.invariant allStarted_step hstarted)
  refine ⟨hdrained, written_prefix_of_reaches hinternal, ?_, fun i ↦ ?_⟩
  · rwa [frames, frames, hdrained.outstanding, add_zero] at hframes
  · have hhandled := handled_append_inTransit hsize hall hlength i
    have hcount := (Steady.accounted hsteady hlength).count
    rw [hdrained.waiting i, hdrained.read i, hcount, List.take_length] at hhandled
    simpa [inTransit] using hhandled

end Runs

/-- A component and the gateway are attached and read, and a thread of the component has called
`write_slot`. -/
def oneCallActions (p : Fin 2) (request : WriteRequest) : List (Action 1 Unit) :=
  List.replicate 3 (Action.engineInit gatewaySlot) ++
  List.replicate 3 (Action.engineInit (Fin.last 1)) ++
  [Action.startReceiving gatewaySlot, Action.startReceiving (Fin.last 1),
    Action.callWriteSlot () p request]

/-- The call returns, and the frame is written. -/
theorem ring_drains_oneCall :
    ∃ s t, run step Broadcasts (create 1 Unit) (oneCallActions (Fin.last 1)
        (threeBytes 1 (deliverToComponents ||| deliverToGateway))) = some s ∧
      Reaches step Internal s t ∧ Drained t ∧ t.history.written =
        [(Fin.last 1, ⟨1, deliverToComponents ||| deliverToGateway, 3, [1, 2, 3]⟩)] := by
  have hrun : (run step Broadcasts (create 1 Unit) (oneCallActions (Fin.last 1)
      (threeBytes 1 (deliverToComponents ||| deliverToGateway)))).map (fun s ↦
        (s.history.written, s.readers, s.writers)) = some ([], fun _ ↦ .loopTest, fun _ ↦
          .waitEmpty (Fin.last 1) (threeBytes 1 (deliverToComponents ||| deliverToGateway))) := by
    decide +kernel
  obtain ⟨s, hs, hfields⟩ := Option.map_eq_some_iff.mp hrun
  obtain ⟨hwritten, hfields⟩ := Prod.mk.inj hfields
  obtain ⟨hreaders, hwriters⟩ := Prod.mk.inj hfields
  have houtstanding : outstanding s =
      {(Fin.last 1, ⟨1, deliverToComponents ||| deliverToGateway, 3, [1, 2, 3]⟩)} := by
    rw [outstanding, hwriters]
    rfl
  obtain ⟨-, hend⟩ := ring_drains (by decide) (reaches_of_run _ hs)
    (fun i ↦ by rw [hreaders]; exact nofun) (by rw [hwritten, houtstanding]; decide)
  obtain ⟨⟨t, hreach, hstuck⟩, -⟩ := hend s (Reaches.refl s)
  obtain ⟨-, hafter⟩ := hend t hreach
  obtain ⟨hdrained, -, hframes, -⟩ := hafter hstuck
  rw [hwritten, houtstanding, Multiset.coe_nil, zero_add] at hframes
  exact ⟨s, t, hs, hreach, hdrained, Multiset.coe_eq_singleton.mp hframes⟩

end VehicleComm.SharedMemory
