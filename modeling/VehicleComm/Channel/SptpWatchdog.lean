import VehicleComm.Channel.Sptp

/-!
# The watchdog of SPTP

`start`, `stop` and the worker thread of `sptp_protocol.h`. A slave asks when it starts, and from
then on the worker wakes about every second: as long as no measurement was accepted it asks again,
and afterwards when the last one is too long ago.

The thread of `start`, which the worker goes on from, is a step function (`Watchdog`): every access
to `_running`, `_last_sync_steady_ns` and `_first_sync_done` and every reading of the steady clock
is a step of its own, and so are those of the receive thread when `on_receive` accepts a
measurement. Time passes in between by any amount. A call of `send_sync_request` is one step for the
worker, and may take any time; what happens in it is in `VehicleComm.Channel.Sptp`. The comparison
of the elapsed seconds with `_max_silence_s` is computed in floating point; it is the parameter
`silent`.

The worker never asks more than once a second, and at most once after `stop` (`asks_at_most`). How
soon it asks, and ends, depends on how promptly it runs (`asks_in_time`).
-/

set_option autoImplicit false
set_option relaxedAutoImplicit false

namespace VehicleComm.Channel

open Library

/-- Where `start` and then the worker are: before `start`; with the time for the store of
`_last_sync_steady_ns`; before the store of `_running`; before a request; in one; at the test of the
loop; asleep until `wake` at the earliest; at the test after that; before the load of
`_first_sync_done`; before the reading of the clock; with that reading; with the last time loaded
too; before the test of `_running` for a request; and after the loop. -/
inductive WorkerPhase
  | unstarted
  | storing (ns : ℤ)
  | arming
  | requesting
  | asking
  | testing
  | sleeping (wake : ℤ)
  | awake
  | checking
  | reading
  | loading (ns : ℤ)
  | comparing (ns last : ℤ)
  | confirming
  | ended
deriving DecidableEq

/-- Where the receive thread is when it accepts a measurement: with the time for the store of
`_last_sync_steady_ns`, and before the store of `_first_sync_done`. -/
inductive AcceptPhase
  | idle
  | storing (ns : ℤ)
  | marking
deriving DecidableEq

/-- The call of `stop`, with the time and the number of requests made up to there. -/
structure StopCall where
  ns : ℤ
  asked : ℕ
deriving DecidableEq

/-- The attributes of the slave that the worker uses and the steady clock, and for the record when
the thread took its last step, when it asked, and the call of `stop`. -/
structure Watchdog where
  now : ℤ
  since : ℤ
  running : Bool
  lastSyncSteady : ℤ
  firstSyncDone : Bool
  phase : WorkerPhase
  receiver : AcceptPhase
  asks : List ℤ
  stopped : Option StopCall

/-- What may happen: time passes; `start` or the worker goes on; `on_receive` accepts a measurement,
which it does after a request only; the receive thread goes on; and `stop` is called. -/
inductive WatchdogAction
  | elapse (d : ℕ)
  | proceed
  | accept
  | handle
  | stop
deriving DecidableEq

/-- `start` has not stored the time. -/
def WorkerPhase.isStarting : WorkerPhase → Bool
  | .unstarted | .storing _ => true
  | _ => false

namespace Watchdog

def initial (now : ℤ) : Watchdog where
  now := now
  since := now
  running := false
  lastSyncSteady := 0
  firstSyncDone := false
  phase := .unstarted
  receiver := .idle
  asks := []
  stopped := none

def moveTo (s : Watchdog) (phase : WorkerPhase) : Watchdog :=
  { s with
    since := s.now
    phase := phase }

def proceed (silent : ℤ → Bool) (s : Watchdog) : Option Watchdog :=
  match s.phase with
  | .unstarted => some (s.moveTo (.storing s.now))
  | .storing ns => some { s.moveTo .arming with lastSyncSteady := ns }
  | .arming => some { s.moveTo .requesting with running := true }
  | .requesting => some { s.moveTo .asking with asks := s.asks ++ [s.now] }
  | .asking => some (s.moveTo .testing)
  | .testing =>
    some (s.moveTo (if s.running then .sleeping (s.now + nsPerSecond) else .ended))
  | .sleeping wake => if wake ≤ s.now then some (s.moveTo .awake) else none
  | .awake => some (s.moveTo (if s.running then .checking else .ended))
  | .checking => some (s.moveTo (if s.firstSyncDone then .reading else .requesting))
  | .reading => some (s.moveTo (.loading s.now))
  | .loading ns => some (s.moveTo (.comparing ns s.lastSyncSteady))
  | .comparing ns last =>
    some (s.moveTo (if silent (ns - last) then .confirming else .testing))
  | .confirming => some (s.moveTo (if s.running then .requesting else .testing))
  | .ended => none

def handle (s : Watchdog) : Option Watchdog :=
  match s.receiver with
  | .idle => none
  | .storing ns =>
    some { s with
      lastSyncSteady := ns
      receiver := .marking }
  | .marking =>
    some { s with
      firstSyncDone := true
      receiver := .idle }

/-- The step function. `stop` does something once, after `start`. -/
def step (silent : ℤ → Bool) (s : Watchdog) : WatchdogAction → Option Watchdog
  | .elapse d => some { s with now := s.now + d }
  | .proceed => s.proceed silent
  | .accept =>
    if s.phase.isStarting = false ∧ s.receiver = .idle then
      some { s with receiver := .storing s.now }
    else none
  | .handle => s.handle
  | .stop =>
    if s.running then
      some { s with
        running := false
        stopped := some ⟨s.now, s.asks.length⟩ }
    else none

variable {silent : ℤ → Bool} {s t : Watchdog}

/-! ### How often the worker asks -/

/-- Requests that the worker may still make without testing `_running` again. -/
def chance : WorkerPhase → ℕ
  | .requesting | .checking => 1
  | _ => 0

/-- `start` has not set `_running`. -/
def beforeRunning : WorkerPhase → Bool
  | .unstarted | .storing _ | .arming => true
  | _ => false

/-- How long the thread has slept, or will have at `horizon`, since its last request. -/
def slept : WorkerPhase → ℤ
  | .asking | .testing | .ended => 0
  | _ => nsPerSecond

/-- The end of the sleep that the thread is in, or the present. -/
def horizon (s : Watchdog) : ℤ :=
  match s.phase with
  | .sleeping wake => wake
  | _ => s.now

/-- What holds in every state: the requests are a second apart, and after `stop` there is at most
one more. -/
structure Spaced (s : Watchdog) : Prop where
  apart : s.asks.Pairwise fun a b ↦ a + nsPerSecond ≤ b
  rested : ∀ a ∈ s.asks, a + slept s.phase ≤ s.horizon
  fresh : beforeRunning s.phase = true → s.asks = [] ∧ s.stopped = none ∧ s.running = false
  stopped : ∀ c, s.stopped = some c →
    s.running = false ∧ c.asked ≤ s.asks.length ∧ s.asks.length + chance s.phase ≤ c.asked + 1

theorem horizon_mono (hnow : s.now ≤ t.now) (hphase : t.phase = s.phase) :
    s.horizon ≤ t.horizon := by
  unfold horizon
  rw [hphase]
  split
  · exact le_rfl
  · exact hnow

/-- Time passes, or an attribute that is not about requests changes. -/
theorem Spaced.of_same (h : s.Spaced) (hnow : s.now ≤ t.now) (hphase : t.phase = s.phase)
    (hasks : t.asks = s.asks) (hstopped : t.stopped = s.stopped)
    (hrunning : t.running = s.running) : t.Spaced := by
  refine ⟨hasks ▸ h.apart, fun a ha ↦ ?_, ?_, ?_⟩
  · rw [hphase]
    exact (h.rested a (hasks ▸ ha)).trans (horizon_mono hnow hphase)
  · rw [hphase, hasks, hstopped, hrunning]
    exact h.fresh
  · rw [hstopped, hrunning, hphase, hasks]
    exact h.stopped

/-- The thread goes on without a request: what it sleeps is added to the horizon, it comes to a
request only by testing `_running` or from where it did so, and it does not go back. -/
theorem Spaced.moveTo (h : s.Spaced) {phase : WorkerPhase}
    (hslept : slept phase + s.horizon ≤ slept s.phase + (s.moveTo phase).horizon)
    (hchance : s.running = false → chance phase ≤ chance s.phase)
    (hfresh : beforeRunning phase = true → beforeRunning s.phase = true) :
    (s.moveTo phase).Spaced := by
  refine ⟨h.apart, fun a ha ↦ ?_, fun hbefore ↦ h.fresh (hfresh hbefore), fun c hc ↦ ?_⟩
  · have hrested := h.rested a ha
    show a + slept phase ≤ (s.moveTo phase).horizon
    omega
  · obtain ⟨hrunning, hasked, hlength⟩ := h.stopped c hc
    exact ⟨hrunning, hasked, (Nat.add_le_add_left (hchance hrunning) _).trans hlength⟩

theorem Spaced.request (h : s.Spaced) (hphase : s.phase = .requesting) :
    { s.moveTo .asking with asks := s.asks ++ [s.now] }.Spaced := by
  have hrested : ∀ a ∈ s.asks, a + nsPerSecond ≤ s.now := fun a ha ↦ by
    have hpast := h.rested a ha
    rwa [hphase, horizon, hphase] at hpast
  refine ⟨?_, fun a ha ↦ ?_, (fun hbefore ↦ by cases hbefore), fun c hc ↦ ?_⟩
  · refine List.pairwise_append.mpr ⟨h.apart, List.pairwise_singleton _ _, fun a ha b hb ↦ ?_⟩
    rw [List.mem_singleton.mp hb]
    exact hrested a ha
  · show a + 0 ≤ s.now
    rw [add_zero]
    rcases List.mem_append.mp ha with hold | hnew
    · exact (le_add_of_nonneg_right (by decide)).trans (hrested a hold)
    · exact (List.mem_singleton.mp hnew).le
  · obtain ⟨hrunning, hasked, hlength⟩ := h.stopped c hc
    rw [hphase] at hlength
    rw [List.length_append]
    exact ⟨hrunning, hasked.trans (Nat.le_add_right _ _), hlength⟩

theorem Spaced.arm (h : s.Spaced) (hphase : s.phase = .arming) :
    { s.moveTo .requesting with running := true }.Spaced := by
  obtain ⟨hnone, hstopped, -⟩ := h.fresh (by rw [hphase]; rfl)
  refine ⟨h.apart, fun a ha ↦ ?_, (fun hbefore ↦ by cases hbefore),
    fun c hc ↦ absurd (hstopped.symm.trans hc) (by simp)⟩
  exact absurd (hnone ▸ ha : a ∈ []) List.not_mem_nil

theorem Spaced.proceed (h : s.Spaced) (hstep : s.proceed silent = some t) : t.Spaced := by
  rw [Watchdog.proceed] at hstep
  cases hphase : s.phase with
  | unstarted | asking | reading | loading ns =>
    simp only [hphase] at hstep
    obtain rfl := Option.some.inj hstep
    exact h.moveTo (by simp [slept, horizon, Watchdog.moveTo, hphase, nsPerSecond])
      (fun _ ↦ Nat.zero_le _) (by simp [beforeRunning, hphase])
  | storing ns =>
    simp only [hphase] at hstep
    obtain rfl := Option.some.inj hstep
    have hmoved : (s.moveTo .arming).Spaced :=
      h.moveTo (by simp [slept, horizon, Watchdog.moveTo, hphase]) (fun _ ↦ Nat.zero_le _)
        (by simp [beforeRunning, hphase])
    exact hmoved.of_same le_rfl rfl rfl rfl rfl
  | arming =>
    simp only [hphase] at hstep
    obtain rfl := Option.some.inj hstep
    exact h.arm hphase
  | requesting =>
    simp only [hphase] at hstep
    obtain rfl := Option.some.inj hstep
    exact h.request hphase
  | testing =>
    simp only [hphase] at hstep
    obtain rfl := Option.some.inj hstep
    split_ifs
    all_goals
      refine h.moveTo ?_ (fun _ ↦ Nat.zero_le _) (by simp [beforeRunning])
      simp [slept, horizon, Watchdog.moveTo, hphase, add_comm]
  | sleeping wake =>
    simp only [hphase] at hstep
    split_ifs at hstep with hawake
    obtain rfl := Option.some.inj hstep
    exact h.moveTo (by simpa [slept, horizon, Watchdog.moveTo, hphase] using hawake)
      (fun _ ↦ Nat.zero_le _) (by simp [beforeRunning])
  | awake =>
    simp only [hphase] at hstep
    obtain rfl := Option.some.inj hstep
    split_ifs with hrunning
    · exact h.moveTo (by simp [slept, horizon, Watchdog.moveTo, hphase])
        (fun hoff ↦ absurd (hrunning.symm.trans hoff) (by simp)) (by simp [beforeRunning])
    · exact h.moveTo (by simp [slept, horizon, Watchdog.moveTo, hphase, nsPerSecond])
        (fun _ ↦ Nat.zero_le _) (by simp [beforeRunning])
  | checking =>
    simp only [hphase] at hstep
    obtain rfl := Option.some.inj hstep
    split_ifs
    all_goals
      refine h.moveTo ?_ (fun _ ↦ ?_) (by simp [beforeRunning])
      · simp [slept, horizon, Watchdog.moveTo, hphase]
      · simp [chance, hphase]
  | comparing ns last =>
    simp only [hphase] at hstep
    obtain rfl := Option.some.inj hstep
    split_ifs
    all_goals
      refine h.moveTo ?_ (fun _ ↦ Nat.zero_le _) (by simp [beforeRunning])
      simp [slept, horizon, Watchdog.moveTo, hphase, nsPerSecond]
  | confirming =>
    simp only [hphase] at hstep
    obtain rfl := Option.some.inj hstep
    split_ifs with hrunning
    · exact h.moveTo (by simp [slept, horizon, Watchdog.moveTo, hphase])
        (fun hoff ↦ absurd (hrunning.symm.trans hoff) (by simp)) (by simp [beforeRunning])
    · exact h.moveTo (by simp [slept, horizon, Watchdog.moveTo, hphase, nsPerSecond])
        (fun _ ↦ Nat.zero_le _) (by simp [beforeRunning])
  | ended =>
    simp only [hphase] at hstep
    cases hstep

theorem chance_le_one (phase : WorkerPhase) : chance phase ≤ 1 := by
  unfold chance
  split <;> decide

theorem Spaced.step {action : WatchdogAction} (h : s.Spaced)
    (hstep : s.step silent action = some t) : t.Spaced := by
  cases action with
  | elapse d =>
    obtain rfl := Option.some.inj hstep
    exact h.of_same (le_add_of_nonneg_right (Int.natCast_nonneg d)) rfl rfl rfl rfl
  | proceed => exact h.proceed hstep
  | accept =>
    rw [Watchdog.step] at hstep
    split_ifs at hstep
    obtain rfl := Option.some.inj hstep
    exact h.of_same le_rfl rfl rfl rfl rfl
  | handle =>
    rw [Watchdog.step, handle] at hstep
    split at hstep
    · cases hstep
    all_goals
      obtain rfl := Option.some.inj hstep
      exact h.of_same le_rfl rfl rfl rfl rfl
  | stop =>
    rw [Watchdog.step] at hstep
    split_ifs at hstep with hrunning
    obtain rfl := Option.some.inj hstep
    refine ⟨h.apart, h.rested, fun hbefore ↦ ?_, fun c hc ↦ ?_⟩
    · exact absurd (hrunning.symm.trans (h.fresh hbefore).2.2) (by simp)
    · obtain rfl := Option.some.inj hc
      exact ⟨rfl, le_rfl, Nat.add_le_add_left (chance_le_one s.phase) _⟩

/-- How often the worker asks. Of every run, however time passes and whichever gaps the comparison
finds too long: two requests of the worker are at least a second apart, and after `stop` there is at
most one more. -/
theorem asks_at_most {now : ℤ} (hrun : Reaches (step silent) Unguarded (initial now) s) :
    (s.asks.Pairwise fun a b ↦ a + nsPerSecond ≤ b) ∧
      ∀ c, s.stopped = some c → s.asks.length ≤ c.asked + 1 := by
  have h : s.Spaced :=
    hrun.invariant (P := Spaced) (fun _ _ _ hspaced _ hstep ↦ hspaced.step hstep)
      ⟨List.Pairwise.nil, (fun a ha ↦ by cases ha), fun _ ↦ ⟨rfl, rfl, rfl⟩,
        (fun c hc ↦ by cases hc)⟩
  refine ⟨h.apart, fun c hc ↦ ?_⟩
  obtain ⟨-, -, hlength⟩ := h.stopped c hc
  omega

/-- No answer came to the first request, and `stop` comes when the worker has seen that. -/
def lateStopActions : List WatchdogAction :=
  List.replicate 6 WatchdogAction.proceed ++ [WatchdogAction.elapse 1000000005] ++
  List.replicate 3 WatchdogAction.proceed ++ [WatchdogAction.stop] ++
  List.replicate 3 WatchdogAction.proceed

/-- The second request was made after `stop`. -/
theorem asks_at_most_lateStop :
    ∃ s, run (step fun _ ↦ false) Unguarded (initial 7) lateStopActions = some s ∧
      s.phase = .ended ∧ s.asks = [7, 1000000012] ∧ s.asks.length ≤ 2 := by
  have hrun : (run (step fun _ ↦ false) Unguarded (initial 7) lateStopActions).map (fun s ↦
      (s.phase, s.asks, s.stopped)) =
        some (.ended, [7, 1000000012], some ⟨1000000012, 1⟩) := by
    decide +kernel
  obtain ⟨s, hs, hfields⟩ := Option.map_eq_some_iff.mp hrun
  obtain ⟨hphase, hfields⟩ := Prod.mk.inj hfields
  obtain ⟨hasks, hstopped⟩ := Prod.mk.inj hfields
  exact ⟨s, hs, hphase, hasks, (asks_at_most (reaches_of_run _ hs)).2 _ hstopped⟩

/-! ### How soon the worker asks -/

/-- The time from which the thread can take its next step, while it has one to take. -/
def resumesAt (s : Watchdog) : Option ℤ :=
  match s.phase with
  | .unstarted | .ended => none
  | .sleeping wake => some wake
  | _ => some s.since

/-- Guard of the runs in which the thread takes each step within `lag` of the last, or of the end of
its sleep. -/
def Prompt (lag : ℕ) (s : Watchdog) : WatchdogAction → Prop
  | .elapse d => ∀ time ∈ s.resumesAt, s.now + d ≤ time + lag
  | _ => True

instance (lag : ℕ) (s : Watchdog) (action : WatchdogAction) : Decidable (Prompt lag s action) :=
  match action with
  | .elapse d => inferInstanceAs (Decidable (∀ time ∈ s.resumesAt, s.now + d ≤ time + lag))
  | .proceed | .accept | .handle | .stop => isTrue trivial

/-- The last accepted measurement is not in the future, and the one that is being accepted is not
older. -/
structure Synced (s : Watchdog) : Prop where
  idle : s.phase.isStarting = true → s.receiver = .idle
  start : ∀ ns, s.phase = .storing ns → ns ≤ s.now
  lastSync : s.phase.isStarting = false → s.lastSyncSteady ≤ s.now
  receiver : ∀ ns, s.receiver = .storing ns → s.lastSyncSteady ≤ ns ∧ ns ≤ s.now

/-- The time from which a request is due after the one made at `asked`: at once before the first
measurement, and after the longest silence since the last. -/
def due (limit : ℤ) (s : Watchdog) (asked : ℤ) : ℤ :=
  if s.firstSyncDone then max asked (s.lastSyncSteady + limit) else asked

/-- How long after a request was due the thread can go on from a phase at the latest, when it takes
`lag` for a step. -/
def budget (lag : ℕ) : WorkerPhase → ℤ
  | .testing => 2 * lag
  | .sleeping _ => nsPerSecond + 3 * lag
  | .awake => nsPerSecond + 4 * lag
  | .checking => nsPerSecond + 5 * lag
  | .reading => nsPerSecond + 6 * lag
  | .loading _ => nsPerSecond + 7 * lag
  | .comparing _ _ => nsPerSecond + 8 * lag
  | .confirming => nsPerSecond + 9 * lag
  | .requesting => nsPerSecond + 10 * lag
  | _ => 0

/-- The same after `stop`. -/
def stopBudget (lag : ℕ) : WorkerPhase → ℤ
  | .requesting | .reading => lag
  | .asking | .loading _ => 2 * lag
  | .comparing _ _ => 3 * lag
  | .confirming => 4 * lag
  | .testing => 5 * lag
  | .sleeping _ => nsPerSecond
  | .awake => nsPerSecond + lag
  | _ => 0

def Known (lag : ℕ) (s : Watchdog) : Prop :=
  match s.phase with
  | .sleeping wake => wake ≤ s.now + nsPerSecond
  | .reading => s.firstSyncDone = true
  | .loading ns => s.firstSyncDone = true ∧ s.since = ns
  | .comparing ns last =>
    s.firstSyncDone = true ∧ last ≤ s.lastSyncSteady ∧ s.since ≤ ns + lag
  | .ended => s.running = false
  | _ => True

structure OnTime (lag : ℕ) (limit : ℤ) (s : Watchdog) : Prop where
  since : s.since ≤ s.now
  prompt : ∀ time, s.resumesAt = some time → s.now ≤ time + lag
  known : s.Known lag
  asked : s.running = true → ∀ asked, s.asks.getLast? = some asked →
    ∀ time, s.resumesAt = some time → time ≤ s.due limit asked + budget lag s.phase
  stopped : ∀ c, s.stopped = some c →
    ∀ time, s.resumesAt = some time → time ≤ c.ns + stopBudget lag s.phase

variable {lag : ℕ} {limit : ℤ}

theorem le_due (limit : ℤ) (s : Watchdog) (asked : ℤ) : asked ≤ s.due limit asked := by
  unfold due
  split_ifs
  · exact le_max_left _ _
  · exact le_rfl

theorem lastSync_le_due (limit asked : ℤ) (hdone : s.firstSyncDone = true) :
    s.lastSyncSteady + limit ≤ s.due limit asked := by
  rw [due, if_pos hdone]
  exact le_max_right _ _

/-- The more is measured, the later the next request is due. -/
theorem due_mono (asked : ℤ) (hlast : s.lastSyncSteady ≤ t.lastSyncSteady)
    (hdone : s.firstSyncDone = true → t.firstSyncDone = true) :
    s.due limit asked ≤ t.due limit asked := by
  by_cases hs : s.firstSyncDone = true
  · rw [due, due, if_pos hs, if_pos (hdone hs)]
    exact max_le_max_left _ (add_le_add_left hlast limit)
  · rw [due, if_neg hs]
    exact le_due limit t asked

/-! #### The last measurement -/

/-- Once the time is stored, the thread leaves what the receive thread does alone. -/
theorem proceed_frame (hstarted : s.phase.isStarting = false)
    (hstep : s.proceed silent = some t) :
    t.now = s.now ∧ t.receiver = s.receiver ∧ t.lastSyncSteady = s.lastSyncSteady ∧
      t.phase.isStarting = false := by
  rw [Watchdog.proceed] at hstep
  cases hphase : s.phase <;> simp only [hphase] at hstep hstarted
  case unstarted | storing | ended => cases hstarted <;> cases hstep
  case sleeping wake =>
    split_ifs at hstep
    obtain rfl := Option.some.inj hstep
    exact ⟨rfl, rfl, rfl, rfl⟩
  case testing | awake | checking | comparing | confirming =>
    obtain rfl := Option.some.inj hstep
    split_ifs
    all_goals exact ⟨rfl, rfl, rfl, rfl⟩
  all_goals
    obtain rfl := Option.some.inj hstep
    exact ⟨rfl, rfl, rfl, rfl⟩

theorem Synced.proceed (h : s.Synced) (hstep : s.proceed silent = some t) : t.Synced := by
  by_cases hstarted : s.phase.isStarting = false
  · obtain ⟨hnow, hreceiver, hlast, hphase⟩ := proceed_frame hstarted hstep
    refine ⟨fun hs ↦ absurd (hphase.symm.trans hs) (by simp), fun ns hns ↦ ?_, fun _ ↦ ?_, ?_⟩
    · rw [hns] at hphase
      cases hphase
    · rw [hlast, hnow]
      exact h.lastSync hstarted
    · rw [hreceiver, hlast, hnow]
      exact h.receiver
  · have hidle := h.idle (by simpa using hstarted)
    rw [Watchdog.proceed] at hstep
    cases hphase : s.phase with
    | unstarted =>
      simp only [hphase] at hstep
      obtain rfl := Option.some.inj hstep
      refine ⟨fun _ ↦ hidle, fun ns hns ↦ ?_, (fun hlater ↦ by cases hlater), h.receiver⟩
      cases hns
      exact le_rfl
    | storing ns =>
      simp only [hphase] at hstep
      obtain rfl := Option.some.inj hstep
      refine ⟨(fun hs ↦ by cases hs), (fun ns' hns' ↦ by cases hns'), fun _ ↦ h.start ns hphase,
        fun ns' hns' ↦ ?_⟩
      exact absurd (hidle.symm.trans hns') (by simp)
    | _ => exact absurd (by rw [hphase]; rfl) hstarted

theorem Synced.step {action : WatchdogAction} (h : s.Synced)
    (hstep : s.step silent action = some t) : t.Synced := by
  cases action with
  | elapse d =>
    obtain rfl := Option.some.inj hstep
    have hle : s.now ≤ s.now + d := le_add_of_nonneg_right (Int.natCast_nonneg d)
    exact ⟨h.idle, fun ns hns ↦ (h.start ns hns).trans hle, fun hs ↦ (h.lastSync hs).trans hle,
      fun ns hns ↦ ⟨(h.receiver ns hns).1, (h.receiver ns hns).2.trans hle⟩⟩
  | proceed => exact h.proceed hstep
  | accept =>
    rw [Watchdog.step] at hstep
    split_ifs at hstep with haccepts
    obtain rfl := Option.some.inj hstep
    refine ⟨fun hs ↦ absurd (haccepts.1.symm.trans hs) (by simp), h.start, h.lastSync,
      fun ns hns ↦ ?_⟩
    cases hns
    exact ⟨h.lastSync haccepts.1, le_rfl⟩
  | handle =>
    rw [Watchdog.step, handle] at hstep
    cases hreceiver : s.receiver with
    | idle =>
      simp only [hreceiver] at hstep
      cases hstep
    | storing ns =>
      simp only [hreceiver] at hstep
      obtain rfl := Option.some.inj hstep
      refine ⟨fun hs ↦ absurd ((h.idle hs).symm.trans hreceiver) (by simp), h.start,
        fun _ ↦ (h.receiver ns hreceiver).2, by simp⟩
    | marking =>
      simp only [hreceiver] at hstep
      obtain rfl := Option.some.inj hstep
      exact ⟨fun _ ↦ rfl, h.start, h.lastSync, by simp⟩
  | stop =>
    rw [Watchdog.step] at hstep
    split_ifs at hstep
    obtain rfl := Option.some.inj hstep
    exact ⟨h.idle, h.start, h.lastSync, h.receiver⟩

/-! #### The steps of the thread -/

/-- The thread goes on to a phase in which it does not sleep. -/
theorem onTime_moveTo {phase : WorkerPhase}
    (hawake : ∀ wake, phase ≠ .sleeping wake) (hknown : (s.moveTo phase).Known lag)
    (hasked : s.running = true → ∀ asked, s.asks.getLast? = some asked →
      s.now ≤ s.due limit asked + budget lag phase)
    (hstopped : ∀ c, s.stopped = some c → s.now ≤ c.ns + stopBudget lag phase) :
    (s.moveTo phase).OnTime lag limit := by
  have hresumes : ∀ time, (s.moveTo phase).resumesAt = some time → time = s.now := by
    intro time htime
    simp only [resumesAt, Watchdog.moveTo] at htime
    split at htime
    · cases htime
    · cases htime
    · next wake => exact absurd rfl (hawake wake)
    · exact (Option.some.inj htime).symm
  refine ⟨le_rfl, fun time htime ↦ ?_, hknown, fun hrunning a ha time htime ↦ ?_,
    fun c hc time htime ↦ ?_⟩
  · rw [hresumes time htime]
    exact le_add_of_nonneg_right (Int.natCast_nonneg lag)
  · rw [hresumes time htime]
    exact hasked hrunning a ha
  · rw [hresumes time htime]
    exact hstopped c hc

/-- The time at which the thread takes a step. -/
theorem OnTime.now_le (h : s.OnTime lag limit) (time : ℤ) (htime : s.resumesAt = some time) :
    (s.running = true → ∀ asked, s.asks.getLast? = some asked →
      s.now ≤ s.due limit asked + budget lag s.phase + lag) ∧
      ∀ c, s.stopped = some c → s.now ≤ c.ns + stopBudget lag s.phase + lag := by
  have hprompt := h.prompt time htime
  refine ⟨fun hrunning a ha ↦ ?_, fun c hc ↦ ?_⟩
  · have hasked := h.asked hrunning a ha time htime
    omega
  · have hstopped := h.stopped c hc time htime
    omega

/-- The thread goes on to a phase that has `lag` more. -/
theorem OnTime.advance (h : s.OnTime lag limit) (hspaced : s.Spaced) {phase : WorkerPhase}
    (time : ℤ) (htime : s.resumesAt = some time) (hawake : ∀ wake, phase ≠ .sleeping wake)
    (hknown : (s.moveTo phase).Known lag)
    (hbudget : s.running = true → budget lag s.phase + lag ≤ budget lag phase)
    (hstop : s.running = false → stopBudget lag s.phase + lag ≤ stopBudget lag phase) :
    (s.moveTo phase).OnTime lag limit := by
  obtain ⟨hasked, hstopped⟩ := h.now_le _ htime
  refine onTime_moveTo hawake hknown (fun hrunning a ha ↦ ?_) fun c hc ↦ ?_
  · have hle := hasked hrunning a ha
    have hmore := hbudget hrunning
    omega
  · have hle := hstopped c hc
    have hmore := hstop (hspaced.stopped c hc).1
    omega

/-- The loop ends. -/
theorem onTime_ended (hrunning : s.running = false) : (s.moveTo .ended).OnTime lag limit :=
  ⟨le_rfl, (fun time htime ↦ by cases htime), hrunning,
    fun hon ↦ absurd (hon.symm.trans hrunning) (by simp),
    (fun c hc time htime ↦ by cases htime)⟩

/-- Before the first request there is nothing to be in time for. -/
theorem onTime_of_fresh (hsince : t.since = t.now) (hknown : t.Known lag)
    (hresumes : ∀ time, t.resumesAt = some time → time = t.now) (hasks : t.asks = [])
    (hstopped : t.stopped = none) : t.OnTime lag limit := by
  refine ⟨hsince.le, fun time htime ↦ ?_, hknown, fun _ a ha ↦ ?_, fun c hc ↦ ?_⟩
  · rw [hresumes time htime]
    exact le_add_of_nonneg_right (Int.natCast_nonneg lag)
  · rw [hasks] at ha
    cases ha
  · exact absurd (hstopped.symm.trans hc) (by simp)

theorem OnTime.sleep (h : s.OnTime lag limit) (hspaced : s.Spaced) (hphase : s.phase = .testing)
    (hrunning : s.running = true) :
    (s.moveTo (.sleeping (s.now + nsPerSecond))).OnTime lag limit := by
  obtain ⟨hasked, -⟩ := h.now_le s.since (by rw [resumesAt, hphase])
  refine ⟨le_rfl, fun time htime ↦ ?_, le_rfl, fun _ a ha time htime ↦ ?_, fun c hc ↦ ?_⟩
  · obtain rfl := Option.some.inj htime
    show s.now ≤ s.now + nsPerSecond + lag
    simp only [nsPerSecond]
    omega
  · obtain rfl := Option.some.inj htime
    have hle := hasked hrunning a ha
    rw [hphase] at hle
    show s.now + nsPerSecond ≤ s.due limit a + (nsPerSecond + 3 * lag)
    simp only [budget] at hle
    omega
  · exact absurd (hrunning.symm.trans (hspaced.stopped c hc).1) (by simp)

/-- A request, which the time to the next is counted from. -/
theorem OnTime.request (h : s.OnTime lag limit) (hphase : s.phase = .requesting) :
    { s.moveTo .asking with asks := s.asks ++ [s.now] }.OnTime lag limit := by
  obtain ⟨-, hstopped⟩ := h.now_le s.since (by rw [resumesAt, hphase])
  refine ⟨le_rfl, fun time htime ↦ ?_, trivial, fun _ a ha time htime ↦ ?_,
    fun c hc time htime ↦ ?_⟩
  · obtain rfl := Option.some.inj htime
    exact le_add_of_nonneg_right (Int.natCast_nonneg lag)
  · obtain rfl := Option.some.inj htime
    obtain rfl : s.now = a := by simpa using ha
    show s.now ≤ due limit _ s.now + 0
    rw [add_zero]
    exact le_due limit _ s.now
  · obtain rfl := Option.some.inj htime
    have hle := hstopped c hc
    rw [hphase] at hle
    show s.now ≤ c.ns + 2 * lag
    simp only [stopBudget] at hle
    omega

/-- The silence is not long enough, so the next request is due later. -/
theorem OnTime.loopBack (h : s.OnTime lag limit) {ns last : ℤ}
    (hphase : s.phase = .comparing ns last) (hshort : ns - last < limit) :
    (s.moveTo .testing).OnTime lag limit := by
  have hknown := h.known
  have hresumes : s.resumesAt = some s.since := by rw [resumesAt, hphase]
  rw [Known, hphase] at hknown
  obtain ⟨hdone, hlast, hsince⟩ := hknown
  refine onTime_moveTo (by simp) trivial (fun _ a _ ↦ ?_) fun c hc ↦ ?_
  · have hprompt := h.prompt _ hresumes
    have hdue := lastSync_le_due limit a hdone
    simp only [budget]
    omega
  · have hle := (h.now_le _ hresumes).2 c hc
    rw [hphase] at hle
    simp only [stopBudget] at hle ⊢
    omega

/-- `start` makes no request before the worker is there. -/
theorem OnTime.starts (hspaced : s.Spaced) (hbefore : beforeRunning s.phase = true)
    (hstep : s.proceed silent = some t) : t.OnTime lag limit := by
  obtain ⟨hnone, hstopped, -⟩ := hspaced.fresh hbefore
  rw [Watchdog.proceed] at hstep
  cases hphase : s.phase with
  | unstarted | storing ns | arming =>
    simp only [hphase] at hstep
    obtain rfl := Option.some.inj hstep
    exact onTime_of_fresh rfl trivial (fun _ htime ↦ (Option.some.inj htime).symm) hnone hstopped
  | _ =>
    rw [hphase] at hbefore
    cases hbefore

/-- The thread goes on after a request. -/
theorem OnTime.asks (h : s.OnTime lag limit) (hspaced : s.Spaced) (hphase : s.phase = .asking)
    (hstep : s.proceed silent = some t) : t.OnTime lag limit := by
  simp only [Watchdog.proceed, hphase] at hstep
  obtain rfl := Option.some.inj hstep
  refine h.advance hspaced s.since (by rw [resumesAt, hphase]) (by simp) trivial ?_ ?_
  all_goals
    simp only [hphase, budget, stopBudget]
    omega

/-- The thread tests `_running`, sleeps, and tests it again. -/
theorem OnTime.sleeps (h : s.OnTime lag limit) (hspaced : s.Spaced)
    (hphase : s.phase = .testing ∨ (∃ wake, s.phase = .sleeping wake) ∨ s.phase = .awake)
    (hstep : s.proceed silent = some t) : t.OnTime lag limit := by
  rcases hphase with hphase | ⟨wake, hphase⟩ | hphase
  · simp only [Watchdog.proceed, hphase] at hstep
    obtain rfl := Option.some.inj hstep
    split_ifs with hrunning
    · exact h.sleep hspaced hphase hrunning
    · exact onTime_ended (by simpa using hrunning)
  · simp only [Watchdog.proceed, hphase] at hstep
    split_ifs at hstep
    obtain rfl := Option.some.inj hstep
    refine h.advance hspaced wake (by rw [resumesAt, hphase]) (by simp) trivial ?_ ?_
    all_goals
      simp only [hphase, budget, stopBudget]
      omega
  · simp only [Watchdog.proceed, hphase] at hstep
    obtain rfl := Option.some.inj hstep
    split_ifs with hrunning
    · refine h.advance hspaced s.since (by rw [resumesAt, hphase]) (by simp) trivial ?_
        fun hoff ↦ absurd (hrunning.symm.trans hoff) (by simp)
      simp only [hphase, budget]
      omega
    · exact onTime_ended (by simpa using hrunning)

/-- The thread looks whether there was a measurement, and for how long there was none. -/
theorem OnTime.reads (h : s.OnTime lag limit) (hspaced : s.Spaced)
    (hphase : s.phase = .checking ∨ s.phase = .reading ∨ ∃ ns, s.phase = .loading ns)
    (hstep : s.proceed silent = some t) : t.OnTime lag limit := by
  have hknown := h.known
  rw [Known] at hknown
  rcases hphase with hphase | hphase | ⟨ns, hphase⟩
  · simp only [Watchdog.proceed, hphase] at hstep
    obtain rfl := Option.some.inj hstep
    split_ifs with hdone
    · refine h.advance hspaced s.since (by rw [resumesAt, hphase]) (by simp) hdone ?_ ?_
      all_goals
        simp only [hphase, budget, stopBudget]
        omega
    · refine h.advance hspaced s.since (by rw [resumesAt, hphase]) (by simp) trivial ?_ ?_
      all_goals
        simp only [hphase, budget, stopBudget]
        omega
  · simp only [Watchdog.proceed, hphase] at hstep
    simp only [hphase] at hknown
    obtain rfl := Option.some.inj hstep
    refine h.advance hspaced s.since (by rw [resumesAt, hphase]) (by simp) ⟨hknown, rfl⟩ ?_ ?_
    all_goals
      simp only [hphase, budget, stopBudget]
      omega
  · simp only [Watchdog.proceed, hphase] at hstep
    simp only [hphase] at hknown
    obtain rfl := Option.some.inj hstep
    obtain ⟨hdone, hread⟩ := hknown
    have hresumes : s.resumesAt = some s.since := by rw [resumesAt, hphase]
    have hprompt := h.prompt _ hresumes
    refine h.advance hspaced s.since hresumes (by simp) ⟨hdone, le_rfl, hread ▸ hprompt⟩ ?_ ?_
    all_goals
      simp only [hphase, budget, stopBudget]
      omega

/-- The thread goes on to a request, or back to its sleep. -/
theorem OnTime.decides (h : s.OnTime lag limit) (hspaced : s.Spaced)
    (hsilent : ∀ gap, limit ≤ gap → silent gap = true)
    (hphase : (∃ ns last, s.phase = .comparing ns last) ∨ s.phase = .confirming)
    (hstep : s.proceed silent = some t) : t.OnTime lag limit := by
  rcases hphase with ⟨ns, last, hphase⟩ | hphase
  · simp only [Watchdog.proceed, hphase] at hstep
    obtain rfl := Option.some.inj hstep
    split_ifs with hlong
    · refine h.advance hspaced s.since (by rw [resumesAt, hphase]) (by simp) trivial ?_ ?_
      all_goals
        simp only [hphase, budget, stopBudget]
        omega
    · exact h.loopBack hphase (not_le.mp fun hle ↦ hlong (hsilent _ hle))
  · simp only [Watchdog.proceed, hphase] at hstep
    obtain rfl := Option.some.inj hstep
    split_ifs with hrunning
    · refine h.advance hspaced s.since (by rw [resumesAt, hphase]) (by simp) trivial ?_
        fun hoff ↦ absurd (hrunning.symm.trans hoff) (by simp)
      simp only [hphase, budget]
      omega
    · refine h.advance hspaced s.since (by rw [resumesAt, hphase]) (by simp) trivial
        (fun hon ↦ absurd hon hrunning) ?_
      simp only [hphase, stopBudget]
      omega

theorem OnTime.proceed (h : s.OnTime lag limit) (hspaced : s.Spaced)
    (hsilent : ∀ gap, limit ≤ gap → silent gap = true) (hstep : s.proceed silent = some t) :
    t.OnTime lag limit := by
  cases hphase : s.phase with
  | unstarted | storing ns | arming => exact OnTime.starts hspaced (by rw [hphase]; rfl) hstep
  | requesting =>
    simp only [Watchdog.proceed, hphase] at hstep
    obtain rfl := Option.some.inj hstep
    exact h.request hphase
  | asking => exact h.asks hspaced hphase hstep
  | testing => exact h.sleeps hspaced (Or.inl hphase) hstep
  | sleeping wake => exact h.sleeps hspaced (Or.inr (Or.inl ⟨wake, hphase⟩)) hstep
  | awake => exact h.sleeps hspaced (Or.inr (Or.inr hphase)) hstep
  | checking => exact h.reads hspaced (Or.inl hphase) hstep
  | reading => exact h.reads hspaced (Or.inr (Or.inl hphase)) hstep
  | loading ns => exact h.reads hspaced (Or.inr (Or.inr ⟨ns, hphase⟩)) hstep
  | comparing ns last => exact h.decides hspaced hsilent (Or.inl ⟨ns, last, hphase⟩) hstep
  | confirming => exact h.decides hspaced hsilent (Or.inr hphase) hstep
  | ended =>
    simp only [Watchdog.proceed, hphase] at hstep
    cases hstep

/-! #### The steps of the other threads -/

/-- A measurement is accepted, or about to be: the next request is due no sooner. -/
theorem OnTime.of_synced (h : s.OnTime lag limit) (hnow : t.now = s.now)
    (hsince : t.since = s.since) (hphase : t.phase = s.phase) (hrunning : t.running = s.running)
    (hasks : t.asks = s.asks) (hstopped : t.stopped = s.stopped)
    (hlast : s.lastSyncSteady ≤ t.lastSyncSteady)
    (hdone : s.firstSyncDone = true → t.firstSyncDone = true) : t.OnTime lag limit := by
  have hresumes : t.resumesAt = s.resumesAt := by rw [resumesAt, resumesAt, hphase, hsince]
  refine ⟨?_, ?_, ?_, ?_, ?_⟩
  · rw [hsince, hnow]
    exact h.since
  · rw [hresumes, hnow]
    exact h.prompt
  · have hknown := h.known
    unfold Known at hknown ⊢
    rw [hphase, hnow, hsince, hrunning]
    split at hknown
    · exact hknown
    · exact hdone hknown
    · exact ⟨hdone hknown.1, hknown.2⟩
    · exact ⟨hdone hknown.1, hknown.2.1.trans hlast, hknown.2.2⟩
    · exact hknown
    · trivial
  · rw [hrunning, hasks, hresumes, hphase]
    intro hon a ha time htime
    exact (h.asked hon a ha time htime).trans
      (add_le_add_left (due_mono a hlast hdone) _)
  · rw [hstopped, hresumes, hphase]
    exact h.stopped

/-- The thread goes on soon enough for a `stop` that comes now. -/
theorem OnTime.resumes_le (h : s.OnTime lag limit) {time : ℤ} (htime : s.resumesAt = some time) :
    time ≤ s.now + stopBudget lag s.phase := by
  have hknown := h.known
  have hsince := h.since
  unfold resumesAt at htime
  unfold Known at hknown
  cases hphase : s.phase <;> simp only [hphase] at htime hknown
  case unstarted | ended => cases htime
  case sleeping wake =>
    obtain rfl := Option.some.inj htime
    exact hknown
  all_goals
    obtain rfl := Option.some.inj htime
    simp only [stopBudget, nsPerSecond]
    omega

theorem OnTime.step {action : WatchdogAction} (h : s.OnTime lag limit) (hspaced : s.Spaced)
    (hsynced : s.Synced) (hsilent : ∀ gap, limit ≤ gap → silent gap = true)
    (hguard : Prompt lag s action) (hstep : s.step silent action = some t) :
    t.OnTime lag limit := by
  cases action with
  | elapse d =>
    obtain rfl := Option.some.inj hstep
    refine ⟨h.since.trans (by simp), fun time htime ↦ hguard time htime, ?_, h.asked, h.stopped⟩
    have hknown := h.known
    unfold Known at hknown ⊢
    simp only
    split at hknown
    · omega
    all_goals exact hknown
  | proceed => exact h.proceed hspaced hsilent hstep
  | accept =>
    rw [Watchdog.step] at hstep
    split_ifs at hstep
    obtain rfl := Option.some.inj hstep
    exact h.of_synced rfl rfl rfl rfl rfl rfl le_rfl id
  | handle =>
    rw [Watchdog.step, handle] at hstep
    cases hreceiver : s.receiver with
    | idle =>
      simp only [hreceiver] at hstep
      cases hstep
    | storing ns =>
      simp only [hreceiver] at hstep
      obtain rfl := Option.some.inj hstep
      exact h.of_synced rfl rfl rfl rfl rfl rfl (hsynced.receiver ns hreceiver).1 id
    | marking =>
      simp only [hreceiver] at hstep
      obtain rfl := Option.some.inj hstep
      exact h.of_synced rfl rfl rfl rfl rfl rfl le_rfl fun _ ↦ rfl
  | stop =>
    rw [Watchdog.step] at hstep
    split_ifs at hstep with hrunning
    obtain rfl := Option.some.inj hstep
    refine ⟨h.since, h.prompt, ?_, by simp, fun c hc time htime ↦ ?_⟩
    · have hknown := h.known
      unfold Known at hknown ⊢
      simp only
      split at hknown
      case h_5 => trivial
      all_goals exact hknown
    · obtain rfl := Option.some.inj hc
      exact h.resumes_le htime

theorem budget_le (lag : ℕ) (phase : WorkerPhase) : budget lag phase ≤ nsPerSecond + 10 * lag := by
  unfold budget nsPerSecond
  split <;> omega

theorem stopBudget_le (lag : ℕ) (phase : WorkerPhase) :
    stopBudget lag phase ≤ nsPerSecond + 5 * lag := by
  unfold stopBudget nsPerSecond
  split <;> omega

theorem resumes_of_ne (hstarted : s.phase ≠ .unstarted) (hgoing : s.phase ≠ .ended) :
    ∃ time, s.resumesAt = some time := by
  unfold resumesAt
  split
  · next hphase => exact absurd hphase hstarted
  · next hphase => exact absurd hphase hgoing
  · exact ⟨_, rfl⟩
  · exact ⟨_, rfl⟩

/-- Assumes: a silence of `limit` is too long for the comparison, and the thread takes each step
within `lag`. While it runs, a request follows the last one within a second and eleven steps of the
time at which it is due: at once before the first measurement, and `limit` after the last
measurement from then on. After `stop` the thread ends within a second and six steps. -/
theorem asks_in_time {now : ℤ} (hsilent : ∀ gap, limit ≤ gap → silent gap = true)
    (hrun : Reaches (step silent) (Prompt lag) (initial now) s) :
    (s.running = true → ∀ asked, s.asks.getLast? = some asked →
      s.now ≤ s.due limit asked + nsPerSecond + 11 * lag) ∧
      ∀ c, s.stopped = some c → s.phase ≠ .ended → s.now ≤ c.ns + nsPerSecond + 6 * lag := by
  have h : s.Spaced ∧ s.Synced ∧ s.OnTime lag limit := by
    refine hrun.invariant (P := fun s ↦ s.Spaced ∧ s.Synced ∧ s.OnTime lag limit)
      (fun _ _ _ hall hguard hstep ↦ ?_) ⟨?_, ?_, ?_⟩
    · obtain ⟨hspaced, hsynced, hontime⟩ := hall
      exact ⟨hspaced.step hstep, hsynced.step hstep,
        hontime.step hspaced hsynced hsilent hguard hstep⟩
    · exact ⟨List.Pairwise.nil, (fun a ha ↦ by cases ha), fun _ ↦ ⟨rfl, rfl, rfl⟩,
        (fun c hc ↦ by cases hc)⟩
    · exact ⟨fun _ ↦ rfl, (fun ns hns ↦ by cases hns), (fun hon ↦ by cases hon),
        (fun ns hns ↦ by cases hns)⟩
    · exact onTime_of_fresh rfl trivial (fun time htime ↦ by cases htime) rfl rfl
  obtain ⟨hspaced, -, hontime⟩ := h
  have hknown := hontime.known
  refine ⟨fun hrunning a ha ↦ ?_, fun c hc hgoing ↦ ?_⟩
  · have hstarted : s.phase ≠ .unstarted := fun hphase ↦ by
      have hoff := (hspaced.fresh (by rw [hphase]; rfl)).2.2
      exact absurd (hrunning.symm.trans hoff) (by simp)
    have hgoing : s.phase ≠ .ended := fun hphase ↦ by
      rw [Known, hphase] at hknown
      exact absurd (hrunning.symm.trans hknown) (by simp)
    obtain ⟨time, htime⟩ := resumes_of_ne hstarted hgoing
    have hle := (hontime.now_le _ htime).1 hrunning a ha
    have hbudget := budget_le lag s.phase
    omega
  · have hstarted : s.phase ≠ .unstarted := fun hphase ↦ by
      have hnone := (hspaced.fresh (by rw [hphase]; rfl)).2.1
      exact absurd (hnone.symm.trans hc) (by simp)
    obtain ⟨time, htime⟩ := resumes_of_ne hstarted hgoing
    have hle := (hontime.now_le _ htime).2 c hc
    have hbudget := stopBudget_le lag s.phase
    omega

/-- The comparison for `Cfg::MAX_SILENCE_S`, two seconds. -/
def silentByDefault (gap : ℤ) : Bool := 2 * nsPerSecond < gap

/-- The first request is answered. Two seconds and a little later the worker is about to ask again,
a millisecond or less for each step. -/
def silenceActions : List WatchdogAction :=
  List.replicate 5 WatchdogAction.proceed ++
  [WatchdogAction.elapse 400000, WatchdogAction.accept, WatchdogAction.handle,
    WatchdogAction.handle, WatchdogAction.proceed, WatchdogAction.elapse 1000000000] ++
  List.replicate 6 WatchdogAction.proceed ++
  [WatchdogAction.proceed, WatchdogAction.elapse 1000900000] ++
  List.replicate 6 WatchdogAction.proceed

theorem asks_in_time_silence :
    ∃ s, run (step silentByDefault) (Prompt 1000000) (initial 7) silenceActions = some s ∧
      s.phase = .confirming ∧ s.now ≤ s.due (2 * nsPerSecond + 1) 7 + nsPerSecond + 11000000 := by
  have hrun : (run (step silentByDefault) (Prompt 1000000) (initial 7) silenceActions).map (fun s ↦
      (s.phase, s.running, s.asks)) = some (.confirming, true, [7]) := by
    decide +kernel
  obtain ⟨s, hs, hfields⟩ := Option.map_eq_some_iff.mp hrun
  obtain ⟨hphase, hfields⟩ := Prod.mk.inj hfields
  obtain ⟨hrunning, hasks⟩ := Prod.mk.inj hfields
  have hsilent : ∀ gap, 2 * nsPerSecond + 1 ≤ gap → silentByDefault gap = true :=
    fun gap hgap ↦ decide_eq_true hgap
  obtain ⟨hasked, -⟩ := asks_in_time hsilent (reaches_of_run _ hs)
  exact ⟨s, hs, hphase, hasked hrunning 7 (by rw [hasks]; rfl)⟩

end Watchdog

end VehicleComm.Channel
