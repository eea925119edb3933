import VehicleComm.Library.GuardedRun
import VehicleComm.Library.Int64Range
import VehicleComm.Library.ThreadFamily

/-!
# Timestamps

`Clock::monotonic_stamp` of `clock.h`, called by any number of threads `τ`. A call reads the clock
once, loads the atomic `last`, and tries to exchange it for the stamp it chose until the exchange
succeeds; the weak exchange may also fail when it could succeed. The readings of the clock are
inputs in any order, since SPTP moves the clock back as well as forward.

What has been returned is recorded in order, each stamp with the reading of its call and the number
of calls that had returned when the call started. Stamps are different, a call returns a greater one
than every call that returned before it started, and at least its own reading (`stamps_increase`).
-/

set_option autoImplicit false
set_option relaxedAutoImplicit false

namespace VehicleComm.Core

open Library

/-- The stamp that `monotonic_stamp` chooses for a reading and a value of `last`. -/
def chosenStamp (now prev : Int64) : Int64 := if prev < now then now else prev + 1

/-- Where a call of `monotonic_stamp` is: with the reading, in the loop with a value of `last`, and
after the exchange. -/
inductive StampPhase
  | sampled
  | trying (prev : Int64)
  | taken (stamp : Int64)
deriving DecidableEq

/-- A call of `monotonic_stamp`, with its reading `now` and the number of calls that had returned
when it started. -/
structure StampCall where
  now : Int64
  before : ℕ
  phase : StampPhase
deriving DecidableEq

structure Stamp where
  value : Int64
  now : Int64
  before : ℕ
deriving DecidableEq

/-- The atomic `last`, the calls in progress and the stamps returned so far. -/
structure StampClock (τ : Type*) where
  last : Int64
  calls : τ → Option StampCall
  returned : List Stamp

/-- One atomic step of a thread. An exchange is `spurious` when it fails without a reason. -/
inductive StampAction (τ : Type*)
  | sample (w : τ) (now : Int64)
  | load (w : τ)
  | exchange (w : τ) (spurious : Bool)
  | leave (w : τ)

namespace StampClock

variable {τ : Type*}

def initial (τ : Type*) : StampClock τ := ⟨0, fun _ ↦ none, []⟩

/-- No value has reached the end of `int64_t`. -/
def Below (s : StampClock τ) (_ : StampAction τ) : Prop := s.last < Int64.maxValue

instance (s : StampClock τ) (action : StampAction τ) : Decidable (s.Below action) :=
  inferInstanceAs (Decidable (_ < _))

variable [DecidableEq τ]

def moveTo (s : StampClock τ) (w : τ) (c : StampCall) (phase : StampPhase) : StampClock τ :=
  { s with calls := Function.update s.calls w (some { c with phase := phase }) }

def step (s : StampClock τ) : StampAction τ → Option (StampClock τ)
  | .sample w now =>
    match s.calls w with
    | none =>
      some { s with calls := Function.update s.calls w (some ⟨now, s.returned.length, .sampled⟩) }
    | some _ => none
  | .load w =>
    match s.calls w with
    | some ⟨now, before, .sampled⟩ => some (s.moveTo w ⟨now, before, .sampled⟩ (.trying s.last))
    | _ => none
  | .exchange w spurious =>
    match s.calls w with
    | some ⟨now, before, .trying prev⟩ =>
      if s.last = prev ∧ ¬spurious then
        some { s.moveTo w ⟨now, before, .trying prev⟩ (.taken (chosenStamp now prev)) with
          last := chosenStamp now prev }
      else some (s.moveTo w ⟨now, before, .trying prev⟩ (.trying s.last))
    | _ => none
  | .leave w =>
    match s.calls w with
    | some ⟨now, before, .taken stamp⟩ =>
      some { s with
        calls := Function.update s.calls w none
        returned := s.returned ++ [⟨stamp, now, before⟩] }
    | _ => none

/-! ### The choice of a stamp -/

omit [DecidableEq τ] in
theorem lt_chosenStamp {prev : Int64} (hprev : prev < Int64.maxValue) (now : Int64) :
    prev < chosenStamp now prev := by
  rw [chosenStamp]
  split_ifs with hlt
  · exact hlt
  · rw [Int64.lt_iff_toInt_lt] at hprev ⊢
    have hmax : Int64.maxValue.toInt = 2 ^ 63 - 1 := by decide
    have hone : (1 : Int64).toInt = 1 := by decide
    have hlow := prev.le_toInt
    have hsum := (toInt_add_iff prev 1).mpr ⟨by omega, by omega⟩
    omega

omit [DecidableEq τ] in
theorem le_chosenStamp {prev : Int64} (hprev : prev < Int64.maxValue) (now : Int64) :
    now ≤ chosenStamp now prev := by
  by_cases hlt : prev < now
  · rw [chosenStamp, if_pos hlt]
    exact Int64.le_refl now
  · exact Int64.le_trans (Int64.not_lt.mp hlt) (Int64.le_of_lt (lt_chosenStamp hprev now))

/-! ### The invariant -/

/-- What a call knows in each of its phases. A stamp that was taken is up to date with `last`, and
greater than everything returned before the call started. -/
def CallSound (s : StampClock τ) (c : StampCall) : Prop :=
  c.before ≤ s.returned.length ∧
    match c.phase with
    | .sampled => True
    | .trying prev => prev < Int64.maxValue
    | .taken stamp =>
      stamp ≤ s.last ∧ c.now ≤ stamp ∧ (∀ r ∈ s.returned, r.value ≠ stamp) ∧
        ∀ (j : ℕ) (q : Stamp), j < c.before → s.returned[j]? = some q → q.value < stamp

structure Sound (s : StampClock τ) : Prop where
  calls : ∀ w c, s.calls w = some c → s.CallSound c
  apart : ∀ w v c d stamp, s.calls w = some c → s.calls v = some d → c.phase = .taken stamp →
    d.phase = .taken stamp → w = v
  returned : ∀ r ∈ s.returned, r.value ≤ s.last ∧ r.now ≤ r.value
  distinct : (s.returned.map Stamp.value).Nodup
  before : ∀ (i : ℕ) (r : Stamp), s.returned[i]? = some r → r.before ≤ i
  increasing : ∀ (i j : ℕ) (r q : Stamp), s.returned[i]? = some r → j < r.before →
    s.returned[j]? = some q →
    q.value < r.value

omit [DecidableEq τ] in
theorem sound_initial : (initial τ).Sound where
  calls := fun w c h ↦ by cases h
  apart := fun w v c d stamp h ↦ by cases h
  returned := fun r hr ↦ absurd hr List.not_mem_nil
  distinct := List.nodup_nil
  before := fun i r h ↦ by cases h
  increasing := fun i j r q h ↦ by cases h

/-- A call that has not taken a stamp may start or go on. -/
theorem Sound.change {s : StampClock τ} (h : s.Sound) (w : τ) {c : StampCall}
    (hsound : s.CallSound c) (hnot : ∀ stamp, c.phase ≠ .taken stamp) :
    { s with calls := Function.update s.calls w (some c) }.Sound where
  calls := by
    intro v d hd
    rcases eq_some_of_update hd with ⟨-, hd⟩ | ⟨-, hd⟩
    · obtain rfl := Option.some.inj hd
      exact hsound
    · exact h.calls v d hd
  apart := by
    intro v u d e stamp hd he hdphase hephase
    have hother : ∀ {x : τ} {f : StampCall}, Function.update s.calls w (some c) x = some f →
        f.phase = .taken stamp → s.calls x = some f := by
      intro x f hf hphase
      rcases eq_some_of_update hf with ⟨-, hf⟩ | ⟨-, hf⟩
      · obtain rfl := Option.some.inj hf
        exact absurd hphase (hnot stamp)
      · exact hf
    exact h.apart v u d e stamp (hother hd hdphase) (hother he hephase) hdphase hephase
  returned := h.returned
  distinct := h.distinct
  before := h.before
  increasing := h.increasing

/-- An exchange that succeeds moves `last` past every stamp there is. -/
theorem Sound.take {s : StampClock τ} (h : s.Sound) {w : τ} {now : Int64} {before : ℕ}
    (hcall : s.calls w = some ⟨now, before, .trying s.last⟩) :
    { s with
      last := chosenStamp now s.last
      calls := Function.update s.calls w
        (some ⟨now, before, .taken (chosenStamp now s.last)⟩) }.Sound := by
  obtain ⟨hbefore, hbelow⟩ := h.calls w _ hcall
  have hlt : s.last < chosenStamp now s.last := lt_chosenStamp hbelow now
  have hle : ∀ {x : Int64}, x ≤ s.last → x < chosenStamp now s.last :=
    fun hx ↦ Int64.lt_of_le_of_lt hx hlt
  have hold : ∀ {v : τ} {d : StampCall} {stamp : Int64}, s.calls v = some d →
      d.phase = .taken stamp → stamp < chosenStamp now s.last := by
    intro v d stamp hd hphase
    have hsound := (h.calls v d hd).2
    rw [hphase] at hsound
    exact hle hsound.1
  refine ⟨fun v d hd ↦ ?_, fun v u d e stamp hd he hdphase hephase ↦ ?_, fun r hr ↦ ?_, h.distinct,
    h.before, h.increasing⟩
  · rcases eq_some_of_update hd with ⟨-, hd⟩ | ⟨-, hd⟩
    · obtain rfl := Option.some.inj hd
      refine ⟨hbefore, Int64.le_refl _, le_chosenStamp hbelow now, fun r hr heq ↦ ?_,
        fun j q _ hq ↦ hle (h.returned q (List.mem_of_getElem? hq)).1⟩
      exact Int64.lt_irrefl (heq ▸ hle (h.returned r hr).1)
    · obtain ⟨hdbefore, hdphase⟩ := h.calls v d hd
      refine ⟨hdbefore, ?_⟩
      cases hphase : d.phase with
      | sampled => trivial
      | trying prev =>
        rw [hphase] at hdphase
        exact hdphase
      | taken stamp =>
        rw [hphase] at hdphase
        exact ⟨Int64.le_of_lt (hold hd hphase), hdphase.2⟩
  · rcases eq_some_of_update hd with ⟨hv, hd⟩ | ⟨-, hd⟩
    · rcases eq_some_of_update he with ⟨hu, -⟩ | ⟨-, he⟩
      · rw [hv, hu]
      · obtain rfl := Option.some.inj hd
        obtain rfl := StampPhase.taken.inj hdphase
        exact absurd (hold he hephase) Int64.lt_irrefl
    · rcases eq_some_of_update he with ⟨-, he⟩ | ⟨-, he⟩
      · obtain rfl := Option.some.inj he
        obtain rfl := StampPhase.taken.inj hephase
        exact absurd (hold hd hdphase) Int64.lt_irrefl
      · exact h.apart v u d e stamp hd he hdphase hephase
  · obtain ⟨hvalue, hnow⟩ := h.returned r hr
    exact ⟨Int64.le_of_lt (hle hvalue), hnow⟩

/-- A call returns the stamp it took. -/
theorem Sound.leave {s : StampClock τ} (h : s.Sound) {w : τ} {now stamp : Int64} {before : ℕ}
    (hcall : s.calls w = some ⟨now, before, .taken stamp⟩) :
    { s with
      calls := Function.update s.calls w none
      returned := s.returned ++ [Stamp.mk stamp now before] }.Sound := by
  obtain ⟨hbefore, hle, hnow, hfresh, hgreater⟩ := h.calls w _ hcall
  have hold : ∀ {v : τ} {d : StampCall}, Function.update s.calls w none v = some d →
      v ≠ w ∧ s.calls v = some d := by
    intro v d hd
    rcases eq_some_of_update hd with ⟨-, hd⟩ | hd
    · cases hd
    · exact hd
  -- an entry is one that was there, or the new one at the end
  have hentry : ∀ {j : ℕ} {q : Stamp}, (s.returned ++ [Stamp.mk stamp now before])[j]? = some q →
      s.returned[j]? = some q ∨ (j = s.returned.length ∧ q = ⟨stamp, now, before⟩) := by
    intro j q hq
    rcases lt_trichotomy j s.returned.length with hj | rfl | hj
    · exact Or.inl (by rwa [List.getElem?_append_left hj] at hq)
    · exact Or.inr ⟨rfl, by simpa using hq.symm⟩
    · rw [List.getElem?_eq_none (by simpa using hj)] at hq
      cases hq
  refine ⟨fun v d hd ↦ ?_, fun v u d e x hd he ↦ ?_, fun r hr ↦ ?_, ?_, fun i r hr ↦ ?_,
    fun i j r q hr hj hq ↦ ?_⟩
  · obtain ⟨hv, hd⟩ := hold hd
    obtain ⟨hdbefore, hdphase⟩ := h.calls v d hd
    refine ⟨?_, ?_⟩
    · rw [List.length_append]
      exact Nat.le_add_right_of_le hdbefore
    · cases hphase : d.phase with
      | sampled => trivial
      | trying prev =>
        rw [hphase] at hdphase
        exact hdphase
      | taken other =>
        rw [hphase] at hdphase
        obtain ⟨hother, hothernow, hotherfresh, hothergreater⟩ := hdphase
        refine ⟨hother, hothernow, fun r hr ↦ ?_, fun j q hj hq ↦ ?_⟩
        · rcases List.mem_append.mp hr with hr | hr
          · exact hotherfresh r hr
          · rw [List.mem_singleton.mp hr]
            rintro rfl
            exact hv (h.apart v w d _ _ hd hcall hphase rfl)
        · rcases hentry hq with hq | ⟨rfl, -⟩
          · exact hothergreater j q hj hq
          · exact absurd hj (not_lt.mpr hdbefore)
  · exact h.apart v u d e x (hold hd).2 (hold he).2
  · rcases List.mem_append.mp hr with hr | hr
    · exact h.returned r hr
    · rw [List.mem_singleton.mp hr]
      exact ⟨hle, hnow⟩
  · rw [List.map_append, List.nodup_append]
    refine ⟨h.distinct, List.nodup_singleton _, fun x hx y hy ↦ ?_⟩
    obtain ⟨r, hr, rfl⟩ := List.mem_map.mp hx
    rw [List.mem_singleton.mp hy]
    exact hfresh r hr
  · rcases hentry hr with hr | ⟨rfl, rfl⟩
    · exact h.before i r hr
    · exact hbefore
  · rcases hentry hr with hr | ⟨rfl, rfl⟩
    · rcases hentry hq with hq | ⟨rfl, -⟩
      · exact h.increasing i j r q hr hj hq
      · -- the new entry is not before an old one
        have hi := h.before i r hr
        have hlength := (List.getElem?_eq_some_iff.mp hr).1
        omega
    · rcases hentry hq with hq | ⟨rfl, -⟩
      · exact hgreater j q hj hq
      · exact absurd hj (not_lt.mpr hbefore)

theorem Sound.step {s t : StampClock τ} {action : StampAction τ} (h : s.Sound)
    (hbelow : s.Below action) (hstep : s.step action = some t) : t.Sound := by
  cases action with
  | sample w now =>
    rw [StampClock.step] at hstep
    split at hstep
    · obtain rfl := Option.some.inj hstep
      exact h.change w ⟨le_refl _, trivial⟩ (fun stamp ↦ StampPhase.noConfusion)
    · cases hstep
  | load w =>
    rw [StampClock.step] at hstep
    split at hstep
    · rename_i now before hcall
      obtain rfl := Option.some.inj hstep
      exact h.change w ⟨(h.calls w _ hcall).1, hbelow⟩ (fun stamp ↦ StampPhase.noConfusion)
    · cases hstep
  | exchange w spurious =>
    rw [StampClock.step] at hstep
    split at hstep
    · rename_i now before prev hcall
      split_ifs at hstep with hsuccess
      · obtain rfl := Option.some.inj hstep
        obtain ⟨rfl, -⟩ := hsuccess
        exact h.take hcall
      · obtain rfl := Option.some.inj hstep
        exact h.change w ⟨(h.calls w _ hcall).1, hbelow⟩ (fun stamp ↦ StampPhase.noConfusion)
    · cases hstep
  | leave w =>
    rw [StampClock.step] at hstep
    split at hstep
    · rename_i now before stamp hcall
      obtain rfl := Option.some.inj hstep
      exact h.leave hcall
    · cases hstep

/-- Assumes: a run in which no value reaches the end of `int64_t`. The stamps returned are
different, each is greater than those returned before its call started, and each is at least the
reading of its call. -/
theorem stamps_increase {s : StampClock τ} (hrun : Reaches step Below (initial τ) s) :
    (s.returned.map Stamp.value).Nodup ∧
      (∀ (i j : ℕ) (r q : Stamp), s.returned[i]? = some r → j < r.before →
        s.returned[j]? = some q → q.value < r.value) ∧
      ∀ r ∈ s.returned, r.now ≤ r.value := by
  have h := hrun.invariant (P := Sound) (fun _ _ _ h hbelow hstep ↦ h.step hbelow hstep)
    sound_initial
  exact ⟨h.distinct, h.increasing, fun r hr ↦ (h.returned r hr).2⟩

/-- Two threads that read the same time race for `last`; one of them then reads an earlier time. -/
def racingActions : List (StampAction Bool) :=
  [.sample true 50, .load true, .sample false 50, .load false, .exchange false true,
    .exchange true false, .exchange false false, .leave true, .sample true 20, .load true,
    .exchange false false, .exchange true false, .exchange true false, .leave true, .leave false]

theorem stamps_increase_racingActions :
    ∃ s, run step Below (initial Bool) racingActions = some s ∧
      s.returned.map Stamp.value = [50, 52, 51] ∧ (s.returned.map Stamp.value).Nodup := by
  have hrun : (run step Below (initial Bool) racingActions).map (fun s ↦
      s.returned.map Stamp.value) = some [50, 52, 51] := by decide +kernel
  obtain ⟨s, hs, hvalues⟩ := Option.map_eq_some_iff.mp hrun
  exact ⟨s, hs, hvalues, (stamps_increase (reaches_of_run racingActions hs)).1⟩

end StampClock

end VehicleComm.Core
