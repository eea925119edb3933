import VehicleComm.Library.GuardedRun
import VehicleComm.Library.Int64Range

/-!
# Periodic threads

`Periodic_Thread` of `periodic_thread.h`. After a job the loop moves its deadline on by the period,
or, when that has passed already, to one period from now (`nextDeadline`, as the code computes it,
and `exactDeadline` on the integers).

The thread is a step function (`PeriodicLoop`): every access to `_running` and `_period_us` and
every reading of the steady clock is a step of its own, but for the test of the inner loop, which
reads `_running` and the clock in one step (`.waiting`); time passes in between by any amount, so
jobs, wake-ups and delays take any time; `set_period` and `stop` come at any moment. Times are
nanoseconds, periods microseconds; the arithmetic of the loop is exact here, which is what it is as
long as the deadline stays in the range of the clock (`deadline_exact_iff`). The starts of the jobs
and the turns of the loop are kept for the record.

The loop neither drifts nor bursts (`keeps_pace`), and the time it has left to wait is at most the
period as long as `set_period` does not lower the period below it (`wait_within_period`).
-/

set_option autoImplicit false
set_option relaxedAutoImplicit false

namespace VehicleComm.Core

open Library

/-! ### The deadline -/

/-- The deadline after a job, for the time read then. -/
def nextDeadline (next : Int64) (periodUs : UInt64) (now : Int64) : Int64 :=
  let advanced := next + periodUs.toInt64 * 1000
  if advanced < now then now + periodUs.toInt64 * 1000 else advanced

/-- The deadline after a job on the integers. -/
def exactDeadline (next : ℤ) (periodUs : ℕ) (now : ℤ) : ℤ :=
  if next + 1000 * periodUs < now then now + 1000 * periodUs else next + 1000 * periodUs

/-- A deadline moved by a period, wrapped. -/
theorem toInt_advance (time : Int64) (periodUs : UInt64) :
    (time + periodUs.toInt64 * 1000).toInt =
      (time.toInt + 1000 * (periodUs.toNat : ℤ)).bmod (2 ^ 64) := by
  have hthousand : (1000 : Int64).toInt = 1000 := by decide
  rw [toInt_add_mul, hthousand, toInt_toInt64, mul_comm, ← Int.add_bmod_bmod, Int.mul_bmod_bmod,
    Int.add_bmod_bmod]

theorem lt_exactDeadline {next now : ℤ} {periodUs : ℕ} (hperiod : 0 < periodUs) :
    next < exactDeadline next periodUs now := by
  rw [exactDeadline]
  split_ifs with hlate <;> omega

theorem le_exactDeadline (next now : ℤ) (periodUs : ℕ) :
    next + 1000 * periodUs ≤ exactDeadline next periodUs now := by
  rw [exactDeadline]
  split_ifs with hlate
  · omega
  · exact le_refl _

/-- As long as the exact deadline is in the range of the clock, the loop computes it. -/
theorem toInt_nextDeadline {next now : Int64} {periodUs : UInt64}
    (hrange : exactDeadline next.toInt periodUs.toNat now.toInt < 2 ^ 63) :
    (nextDeadline next periodUs now).toInt = exactDeadline next.toInt periodUs.toNat now.toInt := by
  have hnext := next.le_toInt
  have hnow := now.le_toInt
  have hle := le_exactDeadline next.toInt now.toInt periodUs.toNat
  have hadvanced : (next + periodUs.toInt64 * 1000).toInt =
      next.toInt + 1000 * (periodUs.toNat : ℤ) := by
    rw [toInt_advance, bmod_eq_self_iff]
    exact ⟨by omega, by omega⟩
  have hlate : next + periodUs.toInt64 * 1000 < now ↔
      next.toInt + 1000 * (periodUs.toNat : ℤ) < now.toInt := by
    rw [Int64.lt_iff_toInt_lt, hadvanced]
  simp only [nextDeadline, hlate]
  unfold exactDeadline at hrange ⊢
  split_ifs at hrange ⊢ with hcase
  · rw [toInt_advance, bmod_eq_self_iff]
    exact ⟨by omega, hrange⟩
  · exact hadvanced

/-- Assumes: a period of at least one microsecond. The deadline that the loop computes is the exact
one, and later than the one before, if and only if the exact one is in the range of the clock. -/
theorem deadline_exact_iff (next now : Int64) (periodUs : UInt64) (hperiod : 1 ≤ periodUs) :
    ((nextDeadline next periodUs now).toInt =
        exactDeadline next.toInt periodUs.toNat now.toInt ∧
      next < nextDeadline next periodUs now) ↔
      exactDeadline next.toInt periodUs.toNat now.toInt < 2 ^ 63 := by
  constructor
  · rintro ⟨hexact, -⟩
    rw [← hexact]
    exact (nextDeadline next periodUs now).toInt_lt
  · intro hrange
    have hexact := toInt_nextDeadline hrange
    refine ⟨hexact, ?_⟩
    rw [Int64.lt_iff_toInt_lt, hexact]
    exact lt_exactDeadline (UInt64.le_iff_toNat_le.mp hperiod)

/-- A period of one second. -/
theorem deadline_exact_iff_second :
    (nextDeadline 7000000000 1000000 7000250000).toInt =
        exactDeadline (7000000000 : Int64).toInt (1000000 : UInt64).toNat
          (7000250000 : Int64).toInt ∧
      (7000000000 : Int64) < nextDeadline 7000000000 1000000 7000250000 :=
  (deadline_exact_iff 7000000000 7000250000 1000000 (by decide)).mpr (by decide +kernel)

/-! ### The thread -/

/-- Where the loop is: before it reads the clock for the first time; at the test of `_running`
before a job; in the job; back from it; with the deadline moved on by the period that it loaded; at
the test of the inner loop; before the length of a slice is computed; in a slice that ends at `wake`
at the earliest; and after the loop. -/
inductive LoopPhase
  | starting
  | testing (next : ℤ)
  | working (next : ℤ)
  | worked (next : ℤ)
  | advanced (next : ℤ) (periodUs : ℕ)
  | waiting (next : ℤ)
  | slicing (next : ℤ)
  | sleeping (next wake : ℤ)
  | ended
deriving DecidableEq

/-- A turn of the loop: the period it loaded, the deadline moved on by that, the reading of the
clock it compared it with, and the deadline it waits for. -/
structure Turn where
  periodUs : ℕ
  due : ℤ
  checkedAt : ℤ
  deadline : ℤ

def Turn.Overran (t : Turn) : Prop := t.due < t.checkedAt

/-- A `Periodic_Thread` with the steady clock, and for the record the time at which the loop
started, the turns, and the starts of the jobs. -/
structure PeriodicLoop where
  now : ℤ
  periodUs : ℕ
  running : Bool
  phase : LoopPhase
  begun : Option ℤ
  turns : List Turn
  starts : List ℤ

/-- What may happen: time passes, another thread calls `set_period` or `stop`, the loop goes on. -/
inductive LoopAction
  | elapse (d : ℕ)
  | setPeriod (periodUs : ℕ)
  | stop
  | proceed
deriving DecidableEq

namespace PeriodicLoop

def initial (now : ℤ) (periodUs : ℕ) : PeriodicLoop :=
  ⟨now, periodUs, true, .starting, none, [], []⟩

/-- The longest slice, 50 ms. -/
def sliceNs : ℤ := 50000000

def awaited : LoopPhase → Option ℤ
  | .waiting next | .slicing next | .sleeping next _ => some next
  | _ => none

def proceed (s : PeriodicLoop) : Option PeriodicLoop :=
  match s.phase with
  | .starting =>
    some { s with
      phase := .testing s.now
      begun := some s.now }
  | .testing next =>
    if s.running then
      some { s with
        phase := .working next
        starts := s.starts ++ [s.now] }
    else some { s with phase := .ended }
  | .working next => some { s with phase := .worked next }
  | .worked next => some { s with phase := .advanced (next + 1000 * s.periodUs) s.periodUs }
  | .advanced next periodUs =>
    let deadline := if next < s.now then s.now + 1000 * periodUs else next
    some { s with
      phase := .waiting deadline
      turns := s.turns ++ [⟨periodUs, next, s.now, deadline⟩] }
  | .waiting next =>
    some { s with phase := if s.running ∧ s.now < next then .slicing next else .testing next }
  | .slicing next => some { s with phase := .sleeping next (s.now + min (next - s.now) sliceNs) }
  | .sleeping next wake => if wake ≤ s.now then some { s with phase := .waiting next } else none
  | .ended => none

def step (s : PeriodicLoop) : LoopAction → Option PeriodicLoop
  | .elapse d => some { s with now := s.now + d }
  | .setPeriod periodUs => some { s with periodUs := periodUs }
  | .stop => some { s with running := false }
  | .proceed => s.proceed

/-! ### The record -/

/-- The deadline after some turns. -/
def deadlineOf (begun : ℤ) (turns : List Turn) : ℤ :=
  turns.foldl (fun next t ↦ exactDeadline next t.periodUs t.checkedAt) begun

/-- The sum of the periods of some turns, in nanoseconds. -/
def totalNs (turns : List Turn) : ℤ := 1000 * ((turns.map Turn.periodUs).sum : ℕ)

theorem deadlineOf_concat (begun : ℤ) (turns : List Turn) (t : Turn) :
    deadlineOf begun (turns ++ [t]) =
      exactDeadline (deadlineOf begun turns) t.periodUs t.checkedAt := by
  rw [deadlineOf, List.foldl_concat, deadlineOf]

theorem totalNs_concat (turns : List Turn) (t : Turn) :
    totalNs (turns ++ [t]) = totalNs turns + 1000 * t.periodUs := by
  rw [totalNs, totalNs, List.map_append, List.sum_append]
  simp
  ring

/-- No deadline comes before the start and the periods up to there. -/
theorem totalNs_le_deadlineOf (begun : ℤ) (turns : List Turn) :
    begun + totalNs turns ≤ deadlineOf begun turns := by
  induction turns using List.reverseRecOn with
  | nil => simp [totalNs, deadlineOf]
  | append_singleton turns t ih =>
    rw [deadlineOf_concat, totalNs_concat]
    have hle := le_exactDeadline (deadlineOf begun turns) t.checkedAt t.periodUs
    omega

/-- What the record says of a turn, in terms of the turns before it. -/
structure TurnSound (begun : ℤ) (before : List Turn) (t : Turn) : Prop where
  due : t.due = deadlineOf begun before + 1000 * t.periodUs
  deadline : t.deadline = deadlineOf begun (before ++ [t])

/-- Without an overrun the deadlines are where the periods put them. -/
theorem deadlineOf_eq {begun : ℤ} {turns : List Turn}
    (hsound : ∀ k t, turns[k]? = some t → TurnSound begun (turns.take k) t)
    (hontime : ∀ t ∈ turns, ¬t.Overran) : deadlineOf begun turns = begun + totalNs turns := by
  induction turns using List.reverseRecOn with
  | nil => simp [totalNs, deadlineOf]
  | append_singleton turns t ih =>
    have hrest : deadlineOf begun turns = begun + totalNs turns := by
      refine ih (fun k u hu ↦ ?_) (fun u hu ↦ hontime u (List.mem_append_left _ hu))
      have hk := (List.getElem?_eq_some_iff.mp hu).1
      have hlast := hsound k u (by rw [List.getElem?_append_left hk, hu])
      rwa [List.take_append_of_le_length hk.le] at hlast
    have hlast := hsound turns.length t (by simp)
    rw [List.take_left] at hlast
    have honce : ¬t.due < t.checkedAt := hontime t (by simp)
    rw [hlast.due] at honce
    rw [deadlineOf_concat, exactDeadline, if_neg honce, totalNs_concat, hrest]
    ring

/-! ### The invariant -/

/-- What the loop knows at each point, for the start `b`. -/
def PhaseSound (s : PeriodicLoop) (b : ℤ) : Prop :=
  match s.phase with
  | .starting => False
  | .testing next =>
    next = deadlineOf b s.turns ∧ s.starts.length = s.turns.length ∧
      (s.running = true → next ≤ s.now)
  | .working next | .worked next =>
    next = deadlineOf b s.turns ∧ s.starts.length = s.turns.length + 1 ∧ next ≤ s.now
  | .advanced next periodUs =>
    next = deadlineOf b s.turns + 1000 * periodUs ∧ s.starts.length = s.turns.length + 1 ∧
      next ≤ s.now + 1000 * periodUs
  | .waiting next | .slicing next | .sleeping next _ =>
    next = deadlineOf b s.turns ∧ s.starts.length = s.turns.length
  | .ended => s.starts.length = s.turns.length

/-- What holds once the loop has started at `b`. -/
structure Started (s : PeriodicLoop) (b : ℤ) : Prop where
  begun : s.begun = some b
  phase : s.PhaseSound b
  turns : ∀ k t, s.turns[k]? = some t → TurnSound b (s.turns.take k) t
  starts : ∀ (k : ℕ) (t : ℤ), s.starts[k]? = some t → deadlineOf b (s.turns.take k) ≤ t

def Sound (s : PeriodicLoop) : Prop :=
  (s.phase = .starting ∧ s.begun = none ∧ s.turns = [] ∧ s.starts = []) ∨ ∃ b, s.Started b

/-- The start of a job is recorded. -/
theorem Started.work {s : PeriodicLoop} {b next : ℤ} (h : s.Started b)
    (hphase : s.phase = .testing next) (hrunning : s.running = true) :
    { s with
      phase := .working next
      starts := s.starts ++ [s.now] }.Started b := by
  obtain ⟨hbegun, hsound, hturns, hstarts⟩ := h
  rw [PhaseSound, hphase] at hsound
  obtain ⟨hnext, hlength, hready⟩ := hsound
  refine ⟨hbegun, ⟨hnext, ?_, hready hrunning⟩, hturns, fun k t ht ↦ ?_⟩
  · rw [List.length_append, List.length_singleton, hlength]
  · rcases lt_trichotomy k s.starts.length with hk | rfl | hk
    · rw [List.getElem?_append_left hk] at ht
      exact hstarts k t ht
    · obtain rfl : s.now = t := by simpa using ht
      rw [hlength, List.take_length, ← hnext]
      exact hready hrunning
    · rw [List.getElem?_eq_none (by simpa using hk)] at ht
      cases ht

/-- A turn is recorded. -/
theorem Started.turn {s : PeriodicLoop} {b next : ℤ} {periodUs : ℕ} (h : s.Started b)
    (hphase : s.phase = .advanced next periodUs) :
    { s with
      phase := .waiting (if next < s.now then s.now + 1000 * periodUs else next)
      turns := s.turns ++ [Turn.mk periodUs next s.now
        (if next < s.now then s.now + 1000 * periodUs else next)] }.Started b := by
  obtain ⟨hbegun, hsound, hturns, hstarts⟩ := h
  rw [PhaseSound, hphase] at hsound
  obtain ⟨hnext, hlength, -⟩ := hsound
  have hdeadline : (if next < s.now then s.now + 1000 * periodUs else next) =
      exactDeadline (deadlineOf b s.turns) periodUs s.now := by
    rw [exactDeadline, ← hnext]
  refine ⟨hbegun, ⟨?_, ?_⟩, fun k t ht ↦ ?_, fun k t ht ↦ ?_⟩
  · rw [deadlineOf_concat, hdeadline]
  · rw [List.length_append, List.length_singleton, hlength]
  · rcases lt_trichotomy k s.turns.length with hk | rfl | hk
    · rw [List.getElem?_append_left hk] at ht
      rw [List.take_append_of_le_length hk.le]
      exact hturns k t ht
    · obtain rfl := Option.some.inj (by simpa using ht)
      rw [List.take_left]
      exact ⟨hnext, by rw [deadlineOf_concat, hdeadline]⟩
    · rw [List.getElem?_eq_none (by simpa using hk)] at ht
      cases ht
  · have hk : k < s.starts.length := (List.getElem?_eq_some_iff.mp ht).1
    rw [List.take_append_of_le_length (by omega)]
    exact hstarts k t ht

/-- A step that leaves the record alone. -/
theorem Started.move {s : PeriodicLoop} {b : ℤ} (h : s.Started b) {phase : LoopPhase}
    (hphase : { s with phase := phase }.PhaseSound b) : { s with phase := phase }.Started b :=
  ⟨h.begun, hphase, h.turns, h.starts⟩

theorem Started.proceed {s t : PeriodicLoop} {b : ℤ} (h : s.Started b)
    (hstep : s.proceed = some t) : t.Started b := by
  have hsound := h.phase
  rw [PeriodicLoop.proceed] at hstep
  rw [PhaseSound] at hsound
  cases hphase : s.phase with
  | starting =>
    rw [hphase] at hsound
    exact hsound.elim
  | testing next =>
    simp only [hphase] at hstep
    split_ifs at hstep with hrunning
    · obtain rfl := Option.some.inj hstep
      exact h.work hphase hrunning
    · obtain rfl := Option.some.inj hstep
      simp only [hphase] at hsound
      exact h.move hsound.2.1
  | working next =>
    simp only [hphase] at hstep hsound
    obtain rfl := Option.some.inj hstep
    exact h.move hsound
  | worked next =>
    simp only [hphase] at hstep hsound
    obtain rfl := Option.some.inj hstep
    obtain ⟨hnext, hlength, hready⟩ := hsound
    refine h.move ⟨by rw [hnext], hlength, ?_⟩
    show next + 1000 * (s.periodUs : ℤ) ≤ s.now + 1000 * (s.periodUs : ℤ)
    omega
  | advanced next periodUs =>
    simp only [hphase] at hstep
    obtain rfl := Option.some.inj hstep
    exact h.turn hphase
  | waiting next =>
    simp only [hphase] at hstep hsound
    obtain rfl := Option.some.inj hstep
    refine h.move ?_
    unfold PhaseSound
    split_ifs with hwait
    · exact hsound
    · refine ⟨hsound.1, hsound.2, fun hrunning ↦ ?_⟩
      exact not_lt.mp fun hlt ↦ hwait ⟨hrunning, hlt⟩
  | slicing next =>
    simp only [hphase] at hstep hsound
    obtain rfl := Option.some.inj hstep
    exact h.move hsound
  | sleeping next wake =>
    simp only [hphase] at hstep hsound
    split_ifs at hstep
    obtain rfl := Option.some.inj hstep
    exact h.move hsound
  | ended =>
    simp only [hphase] at hstep
    cases hstep

theorem Started.elapse {s : PeriodicLoop} {b : ℤ} (h : s.Started b) (d : ℕ) :
    { s with now := s.now + d }.Started b := by
  refine ⟨h.begun, ?_, h.turns, h.starts⟩
  have hsound := h.phase
  unfold PhaseSound at hsound ⊢
  cases hphase : s.phase with
  | starting => simp only [hphase] at hsound
  | testing next =>
    simp only [hphase] at hsound ⊢
    exact ⟨hsound.1, hsound.2.1, fun hrunning ↦ (hsound.2.2 hrunning).trans (by omega)⟩
  | working next | worked next =>
    simp only [hphase] at hsound ⊢
    exact ⟨hsound.1, hsound.2.1, hsound.2.2.trans (by omega)⟩
  | advanced next periodUs =>
    simp only [hphase] at hsound ⊢
    exact ⟨hsound.1, hsound.2.1, hsound.2.2.trans (by omega)⟩
  | waiting next | slicing next | sleeping next wake =>
    simp only [hphase] at hsound ⊢
    exact hsound
  | ended =>
    simp only [hphase] at hsound ⊢
    exact hsound

/-- After `stop` the loop starts no job, so nothing need be known about the deadline. -/
theorem Started.stop {s : PeriodicLoop} {b : ℤ} (h : s.Started b) :
    { s with running := false }.Started b := by
  refine ⟨h.begun, ?_, h.turns, h.starts⟩
  have hsound := h.phase
  unfold PhaseSound at hsound ⊢
  cases hphase : s.phase with
  | testing next =>
    simp only [hphase] at hsound ⊢
    exact ⟨hsound.1, hsound.2.1, fun hrunning ↦ (by cases hrunning)⟩
  | starting => simp only [hphase] at hsound
  | working next | worked next | advanced next periodUs | waiting next | slicing next
  | sleeping next wake | ended =>
    simpa only [hphase] using hsound

theorem Sound.step {s t : PeriodicLoop} {action : LoopAction} (h : s.Sound)
    (hstep : s.step action = some t) : t.Sound := by
  cases action with
  | elapse d =>
    obtain rfl := Option.some.inj hstep
    rcases h with hstarting | ⟨b, hb⟩
    · exact Or.inl hstarting
    · exact Or.inr ⟨b, hb.elapse d⟩
  | setPeriod periodUs =>
    obtain rfl := Option.some.inj hstep
    rcases h with hstarting | ⟨b, hb⟩
    · exact Or.inl hstarting
    · exact Or.inr ⟨b, hb.begun, hb.phase, hb.turns, hb.starts⟩
  | stop =>
    obtain rfl := Option.some.inj hstep
    rcases h with hstarting | ⟨b, hb⟩
    · exact Or.inl hstarting
    · exact Or.inr ⟨b, hb.stop⟩
  | proceed =>
    rcases h with ⟨hphase, -, hturns, hstarts⟩ | ⟨b, hb⟩
    · rw [PeriodicLoop.step, PeriodicLoop.proceed] at hstep
      simp only [hphase] at hstep
      obtain rfl := Option.some.inj hstep
      refine Or.inr ⟨s.now, rfl, ⟨?_, ?_, fun _ ↦ le_refl _⟩, fun k t ht ↦ ?_, fun k t ht ↦ ?_⟩
      · show s.now = deadlineOf s.now s.turns
        rw [hturns]
        rfl
      · show s.starts.length = s.turns.length
        rw [hturns, hstarts]
        rfl
      · rw [hturns] at ht
        cases ht
      · rw [hstarts] at ht
        cases ht
    · exact Or.inr ⟨b, hb.proceed hstep⟩

theorem sound_of_reaches {now : ℤ} {periodUs : ℕ} {s : PeriodicLoop}
    (hrun : Reaches step Unguarded (initial now periodUs) s) : s.Sound :=
  hrun.invariant (P := Sound) (fun _ _ _ h _ hstep ↦ h.step hstep) (Or.inl ⟨rfl, rfl, rfl, rfl⟩)

/-! ### The pace -/

/-- There is at most one job more than there are turns. -/
theorem Started.length_starts_le {s : PeriodicLoop} {b : ℤ} (h : s.Started b) :
    s.starts.length ≤ s.turns.length + 1 := by
  have hsound := h.phase
  unfold PhaseSound at hsound
  split at hsound
  · exact hsound.elim
  · exact hsound.2.1.le.trans (Nat.le_succ _)
  · exact hsound.2.1.le
  · exact hsound.2.1.le
  · exact hsound.2.1.le
  · exact hsound.2.le.trans (Nat.le_succ _)
  · exact hsound.2.le.trans (Nat.le_succ _)
  · exact hsound.2.le.trans (Nat.le_succ _)
  · exact hsound.le.trans (Nat.le_succ _)

theorem totalNs_of_constant {turns : List Turn} {period : ℕ}
    (h : ∀ turn ∈ turns, turn.periodUs = period) :
    totalNs turns = 1000 * (turns.length * period : ℕ) := by
  have hmap : turns.map Turn.periodUs = List.replicate turns.length period := by
    rw [List.eq_replicate_iff, List.length_map]
    refine ⟨rfl, fun p hp ↦ ?_⟩
    obtain ⟨turn, hturn, rfl⟩ := List.mem_map.mp hp
    exact h turn hturn
  rw [totalNs, hmap, List.sum_replicate, smul_eq_mul]

/-- Entries that meet a condition only before some place are that many at most. -/
theorem length_filter_le {α : Type*} {values : List α} {p : α → Bool} {bound : ℕ}
    (h : ∀ (k : ℕ) (x : α), values[k]? = some x → p x = true → k < bound) :
    (values.filter p).length ≤ bound := by
  have hrest : (values.drop bound).filter p = [] := by
    rw [List.filter_eq_nil_iff]
    intro x hx hp
    obtain ⟨k, hk⟩ := List.getElem?_of_mem hx
    rw [List.getElem?_drop] at hk
    exact absurd (h (bound + k) x hk hp) (by omega)
  calc (values.filter p).length
      = ((values.take bound ++ values.drop bound).filter p).length := by
        rw [List.take_append_drop]
    _ = ((values.take bound).filter p).length := by
        rw [List.filter_append, hrest, List.append_nil]
    _ ≤ (values.take bound).length := List.length_filter_le p _
    _ ≤ bound := List.length_take_le bound values

/-- In every run: a job starts no earlier than the start of the loop and the periods before it; a
deadline is there exactly as long as no job finished past its own; the job after one that did starts
at least one period after that was noticed; and with a constant period the jobs started within a
time are at most the periods that fit, and one. -/
theorem keeps_pace {now : ℤ} {periodUs : ℕ} {s : PeriodicLoop}
    (hrun : Reaches step Unguarded (initial now periodUs) s) {b : ℤ} (hbegun : s.begun = some b) :
    (∀ (k : ℕ) (t : ℤ), s.starts[k]? = some t → b + totalNs (s.turns.take k) ≤ t) ∧
      (∀ (k : ℕ) (turn : Turn), s.turns[k]? = some turn →
        (∀ earlier ∈ s.turns.take (k + 1), ¬earlier.Overran) →
          turn.deadline = b + totalNs (s.turns.take (k + 1))) ∧
      (∀ (k : ℕ) (turn : Turn) (t : ℤ), s.turns[k]? = some turn → turn.Overran →
        s.starts[k + 1]? = some t → turn.checkedAt + 1000 * turn.periodUs ≤ t) ∧
      ∀ period elapsed : ℕ, 0 < period → (∀ turn ∈ s.turns, turn.periodUs = period) →
        (s.starts.filter fun t ↦ t ≤ b + elapsed).length ≤ elapsed / (1000 * period) + 1 := by
  obtain ⟨-, hnone, -, -⟩ | ⟨b', hstarted⟩ := sound_of_reaches hrun
  · rw [hnone] at hbegun
    cases hbegun
  obtain rfl : b' = b := Option.some.inj (hstarted.begun.symm.trans hbegun)
  have hearliest : ∀ (k : ℕ) (t : ℤ), s.starts[k]? = some t →
      b' + totalNs (s.turns.take k) ≤ t := fun k t ht ↦
    (totalNs_le_deadlineOf b' (s.turns.take k)).trans (hstarted.starts k t ht)
  have hdeadline : ∀ (k : ℕ) (turn : Turn), s.turns[k]? = some turn →
      turn.deadline = deadlineOf b' (s.turns.take (k + 1)) := by
    intro k turn hturn
    rw [(hstarted.turns k turn hturn).deadline, List.take_add_one, hturn, Option.toList_some]
  refine ⟨hearliest, fun k turn hturn hontime ↦ ?_, fun k turn t hturn hover ht ↦ ?_,
    fun period elapsed hpositive hconstant ↦ length_filter_le fun k t ht hwithin ↦ ?_⟩
  · rw [hdeadline k turn hturn]
    refine deadlineOf_eq (fun j u hu ↦ ?_) hontime
    have hj : j < k + 1 := lt_of_lt_of_le (List.getElem?_eq_some_iff.mp hu).1
      (List.length_take_le _ _)
    rw [List.getElem?_take_of_lt hj] at hu
    rw [List.take_take, min_eq_left hj.le]
    exact hstarted.turns j u hu
  · have hnext := hstarted.starts (k + 1) t ht
    have hsound := hstarted.turns k turn hturn
    have hlate : turn.due < turn.checkedAt := hover
    rw [← hdeadline k turn hturn, hsound.deadline, deadlineOf_concat, exactDeadline, ← hsound.due,
      if_pos hlate] at hnext
    exact hnext
  · have hk : k < s.starts.length := (List.getElem?_eq_some_iff.mp ht).1
    have hturns : k ≤ s.turns.length := Nat.lt_succ_iff.mp (hk.trans_le hstarted.length_starts_le)
    have htotal : totalNs (s.turns.take k) = 1000 * (k * period : ℕ) := by
      rw [totalNs_of_constant fun turn hturn ↦ hconstant turn (List.mem_of_mem_take hturn),
        List.length_take_of_le hturns]
    have hstart := hearliest k t ht
    have hle : t ≤ b' + elapsed := of_decide_eq_true hwithin
    rw [htotal] at hstart
    have hfits : k * (1000 * period) ≤ elapsed := by
      rw [Nat.mul_left_comm]
      omega
    exact Nat.lt_succ_of_le ((Nat.le_div_iff_mul_le (by omega)).mpr hfits)

/-- Three turns of a loop with a period of 10 µs; the second job takes too long. -/
def overrunActions : List LoopAction :=
  [.proceed, .proceed, .elapse 4000, .proceed, .proceed, .proceed, .proceed, .proceed, .elapse 6000,
    .proceed, .proceed, .proceed, .elapse 25000, .proceed, .proceed, .proceed, .proceed, .proceed,
    .elapse 10000, .proceed, .proceed, .proceed]

theorem keeps_pace_overrunActions :
    ∃ s, run step Unguarded (initial 0 10) overrunActions = some s ∧
      s.turns.map Turn.deadline = [10000, 45000] ∧ s.starts = [0, 10000, 45000] ∧
      (s.starts.filter fun t : ℤ ↦ t ≤ 0 + (40000 : ℕ)).length ≤ 40000 / (1000 * 10) + 1 := by
  have hrun : (run step Unguarded (initial 0 10) overrunActions).map (fun s ↦
      (s.begun, s.turns.map Turn.periodUs, s.turns.map Turn.deadline, s.starts)) =
        some (some 0, [10, 10], [10000, 45000], [0, 10000, 45000]) := by decide +kernel
  obtain ⟨s, hs, hfields⟩ := Option.map_eq_some_iff.mp hrun
  obtain ⟨hbegun, hfields⟩ := Prod.mk.inj hfields
  obtain ⟨hperiods, hfields⟩ := Prod.mk.inj hfields
  obtain ⟨hdeadlines, hstarts⟩ := Prod.mk.inj hfields
  have hconstant : ∀ turn ∈ s.turns, turn.periodUs = 10 := by
    intro turn hturn
    have hmem := List.mem_map_of_mem (f := Turn.periodUs) hturn
    rw [hperiods] at hmem
    simpa using hmem
  exact ⟨s, hs, hdeadlines, hstarts,
    (keeps_pace (reaches_of_run overrunActions hs) hbegun).2.2.2 10 40000 (by decide) hconstant⟩

/-! ### A change of the period -/

/-- `set_period` does not lower the period below the time that is left, neither during a wait nor
between the load of the period and the wait. -/
def Timely (s : PeriodicLoop) : LoopAction → Prop
  | .setPeriod periodUs => ∀ next ∈ awaited s.phase, next ≤ s.now + 1000 * periodUs
  | .proceed =>
    match s.phase with
    | .advanced next periodUs =>
      periodUs ≤ s.periodUs ∨ (s.now ≤ next ∧ next ≤ s.now + 1000 * s.periodUs)
    | _ => True
  | _ => True

instance (s : PeriodicLoop) (action : LoopAction) : Decidable (s.Timely action) := by
  cases action with
  | setPeriod periodUs => exact inferInstanceAs (Decidable (∀ next ∈ awaited s.phase, _))
  | proceed =>
    rw [Timely]
    split <;> infer_instance
  | elapse d => exact isTrue trivial
  | stop => exact isTrue trivial

/-- The time that is left is at most the period. -/
def Within (s : PeriodicLoop) : Prop := ∀ next ∈ awaited s.phase, next ≤ s.now + 1000 * s.periodUs

theorem Within.proceed {s t : PeriodicLoop} (h : s.Within) (hsound : s.Sound)
    (htimely : s.Timely .proceed) (hstep : s.proceed = some t) : t.Within := by
  have hnowhere : ∀ {phase : LoopPhase}, awaited phase = none →
      ∀ next ∈ awaited phase, next ≤ s.now + 1000 * s.periodUs := by
    intro phase hphase next hnext
    rw [hphase] at hnext
    cases hnext
  rw [PeriodicLoop.proceed] at hstep
  unfold Within at h
  cases hphase : s.phase with
  | starting | working next | worked next =>
    simp only [hphase] at hstep
    obtain rfl := Option.some.inj hstep
    exact hnowhere rfl
  | testing next =>
    simp only [hphase] at hstep
    split_ifs at hstep
    · obtain rfl := Option.some.inj hstep
      exact hnowhere rfl
    · obtain rfl := Option.some.inj hstep
      exact hnowhere rfl
  | advanced next periodUs =>
    -- the job started at its deadline or later, so the new one is within the period that was loaded
    obtain ⟨hstarting, -⟩ | ⟨b, hb⟩ := hsound
    · rw [hphase] at hstarting
      cases hstarting
    have hadvanced := hb.phase
    rw [PhaseSound, hphase] at hadvanced
    have hloaded : next ≤ s.now + 1000 * periodUs := hadvanced.2.2
    simp only [Timely, hphase] at htimely
    simp only [hphase] at hstep
    obtain rfl := Option.some.inj hstep
    intro deadline hdeadline
    obtain rfl := Option.some.inj hdeadline
    show (if next < s.now then s.now + 1000 * (periodUs : ℤ) else next) ≤
      s.now + 1000 * (s.periodUs : ℤ)
    rcases htimely with hkept | ⟨hontime, hnear⟩
    · split_ifs <;> omega
    · rw [if_neg (not_lt.mpr hontime)]
      exact hnear
  | waiting next =>
    simp only [hphase] at hstep h
    obtain rfl := Option.some.inj hstep
    unfold Within
    dsimp only
    split_ifs
    · exact h
    · exact hnowhere rfl
  | slicing next =>
    simp only [hphase] at hstep h
    obtain rfl := Option.some.inj hstep
    exact h
  | sleeping next wake =>
    simp only [hphase] at hstep h
    split_ifs at hstep
    obtain rfl := Option.some.inj hstep
    exact h
  | ended =>
    simp only [hphase] at hstep
    cases hstep

/-- Assumes: a run in which `set_period` does not lower the period below the time that is left.
While the loop waits for its next job, the time that is left is at most the period. -/
theorem wait_within_period {now : ℤ} {periodUs : ℕ} {s : PeriodicLoop}
    (hrun : Reaches step Timely (initial now periodUs) s) {next : ℤ}
    (hwaits : awaited s.phase = some next) : next - s.now ≤ 1000 * s.periodUs := by
  have hinvariant : s.Sound ∧ s.Within := by
    refine hrun.invariant (P := fun s ↦ s.Sound ∧ s.Within) ?_ ⟨Or.inl ⟨rfl, rfl, rfl, rfl⟩, ?_⟩
    · rintro s action t ⟨hsound, hwithin⟩ htimely hstep
      refine ⟨hsound.step hstep, ?_⟩
      cases action with
      | elapse d =>
        obtain rfl := Option.some.inj hstep
        intro next hnext
        have hbefore : next ≤ s.now + 1000 * s.periodUs := hwithin next hnext
        show next ≤ s.now + d + 1000 * s.periodUs
        omega
      | setPeriod periodUs =>
        obtain rfl := Option.some.inj hstep
        exact htimely
      | stop =>
        obtain rfl := Option.some.inj hstep
        exact hwithin
      | proceed => exact hwithin.proceed hsound htimely hstep
    · intro next hnext
      cases hnext
  have hnext := hinvariant.2 next hwaits
  omega

/-- A thread with a period of a second; during its first wait the period becomes 50 ms. -/
def loweredActions : List LoopAction :=
  [.proceed, .proceed, .proceed, .proceed, .proceed, .setPeriod 50000]

/-- The thread still waits for the whole second. -/
theorem waits_beyond_period :
    ∃ s, Reaches step Unguarded (initial 0 1000000) s ∧
      ∃ next, awaited s.phase = some next ∧ ¬next - s.now ≤ 1000 * s.periodUs := by
  have hrun : (run step Unguarded (initial 0 1000000) loweredActions).map (fun s ↦
      (awaited s.phase, s.now, s.periodUs)) = some (some 1000000000, 0, 50000) := by decide +kernel
  obtain ⟨s, hs, hfields⟩ := Option.map_eq_some_iff.mp hrun
  obtain ⟨hwaits, hfields⟩ := Prod.mk.inj hfields
  obtain ⟨hnow, hperiod⟩ := Prod.mk.inj hfields
  refine ⟨s, reaches_of_run loweredActions hs, 1000000000, hwaits, ?_⟩
  rw [hnow, hperiod]
  decide

/-- The period is lowered during the job, and later to what is left of the wait. -/
def timelyActions : List LoopAction :=
  [.proceed, .proceed, .setPeriod 90000, .proceed, .proceed, .proceed, .proceed, .proceed,
    .elapse 50000000, .setPeriod 40000, .proceed]

theorem wait_within_period_timelyActions :
    ∃ s, run step Timely (initial 0 1000000) timelyActions = some s ∧
      90000000 - s.now ≤ 1000 * s.periodUs := by
  have hrun : (run step Timely (initial 0 1000000) timelyActions).map (fun s ↦ awaited s.phase) =
      some (some 90000000) := by decide +kernel
  obtain ⟨s, hs, hwaits⟩ := Option.map_eq_some_iff.mp hrun
  exact ⟨s, hs, wait_within_period (reaches_of_run timelyActions hs) hwaits⟩

end PeriodicLoop

end VehicleComm.Core
