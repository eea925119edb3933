import VehicleComm.Core.Observed
import VehicleComm.SmartData.Messages

/-!
# The message that a communicator hands to its observers

`Communicator::update` of `communicator.h` with `SmartData::update` of `smart_data.h`: the buffer
becomes one `Message`, the pointer goes to every attached `SmartData` in turn, and each of them
either deletes the message or puts the pointer into its queue, from which the application takes it
and deletes the message (`receive_response`, and `drain_and_free` in the destructor). Nobody else
has the pointer unless no observer was notified; then the `Communicator` deletes the message.

The `SmartData` attached are fixed, each with the condition it is attached for. The application may
take a pointer between any two steps of the thread that notifies. Deletions, and reads by an
observer of a message that was deleted before, are counted.

With at most one observer for the condition the message is deleted exactly once, and not read after
that; with two or more there is a run in which it is (`released_once_iff`).
-/

set_option autoImplicit false
set_option relaxedAutoImplicit false

namespace VehicleComm.SmartData

open Library

/-- `SmartHeader::RESPONSE`. -/
def responseKind : UInt8 := 1

/-- `SmartData::Role`. -/
inductive Role
  | producer
  | consumer
deriving DecidableEq

/-- What the fate of a message depends on: `_role`, `UNIT` and `_value_mode`. -/
structure SmartDatum where
  role : Role
  unit : UInt32
  valueMode : Bool
deriving DecidableEq

inductive Disposal
  | deleted
  | queued
deriving DecidableEq

/-- The message has a header, and of the unit of the observer. -/
def SmartDatum.concerns (o : SmartDatum) (data : List UInt8) : Bool :=
  smartHeaderSize ≤ data.length && headerUnit data = o.unit

/-- `SmartData::update`. -/
def SmartDatum.update (o : SmartDatum) (data : List UInt8) : Disposal :=
  if !o.concerns data then .deleted
  else if o.role = .producer ∧ headerKind data = interestKind then .deleted
  else if o.role = .consumer ∧ headerKind data = responseKind then
    if o.valueMode then .deleted else .queued
  else .deleted

/-- A `SmartData` and the port it is attached for. -/
abbrev Attached : Type := Core.ObserverEntry SmartDatum UInt16

/-- Where `Communicator::update` is: before it, in the loop of `notify` with the rest of the copy,
in the `update` of one observer after `header_of`, and behind it. -/
inductive ReleasePhase
  | receiving
  | notifying (rest : List Attached) (notified : Bool)
  | updating (o : SmartDatum) (rest : List Attached)
  | done
deriving DecidableEq

/-- One call of `Communicator::update`: the messages allocated, the deletions, the reads of a
deleted message by an observer, and the pointers in the queues of the observers. -/
structure Release where
  allocated : ℕ
  deletions : ℕ
  staleReads : ℕ
  queued : ℕ
  phase : ReleasePhase
deriving DecidableEq

/-- One step of the thread that notifies, or one message that the application takes from a queue and
deletes. -/
inductive ReleaseAction
  | proceed
  | take

namespace Release

def initial : Release := ⟨0, 0, 0, 0, .receiving⟩

def read (s : Release) : ℕ := if 0 < s.deletions then s.staleReads + 1 else s.staleReads

def dispose (s : Release) : Disposal → Release
  | .deleted => { s with deletions := s.deletions + 1 }
  | .queued => { s with queued := s.queued + 1 }

section Step

variable (attached : List Attached) (c : UInt16) (data : List UInt8)

/-- `Communicator::update` up to the loop of `notify`. Without an observer the buffer is queued as
it is. -/
def receive (s : Release) : Release :=
  if attached.any fun e ↦ e.condition = c then
    if data = [] then { s with allocated := 1, deletions := 1, phase := .done }
    else { s with allocated := 1, phase := .notifying attached false }
  else { s with phase := .done }

/-- The next step of `Communicator::update`. -/
def proceed (s : Release) : Option Release :=
  match s.phase with
  | .receiving => some (s.receive attached c data)
  | .notifying [] true => some { s with phase := .done }
  | .notifying [] false => some { s with deletions := s.deletions + 1, phase := .done }
  | .notifying (e :: rest) notified =>
    if e.condition = c then
      some { s with staleReads := s.read, phase := .updating e.observer rest }
    else some { s with phase := .notifying rest notified }
  | .updating o rest =>
    some { s.dispose (o.update data) with
      staleReads := if o.concerns data then s.read else s.staleReads
      phase := .notifying rest true }
  | .done => none

def step (s : Release) : ReleaseAction → Option Release
  | .proceed => s.proceed attached c data
  | .take =>
    if 0 < s.queued then
      some { s with queued := s.queued - 1, deletions := s.deletions + 1 }
    else none

end Step

/-- The call has returned and no observer has the pointer in its queue. -/
def Finished (s : Release) : Prop := s.phase = .done ∧ s.queued = 0

/-- The observers of a list that `notify` updates. -/
def turns (c : UInt16) (entries : List Attached) : List Attached :=
  entries.filter fun e ↦ e.condition = c

/-! ### At most one observer -/

/-- What holds at each place of the call when at most one observer gets a turn: the message is with
the `Communicator`, in a queue or deleted. -/
def PhaseSound (s : Release) (c : UInt16) : ReleasePhase → Prop
  | .receiving => s.allocated = 0 ∧ s.deletions = 0 ∧ s.queued = 0
  | .notifying rest false =>
    s.allocated = 1 ∧ s.deletions = 0 ∧ s.queued = 0 ∧ (turns c rest).length ≤ 1
  | .notifying rest true => s.allocated = 1 ∧ s.deletions + s.queued = 1 ∧ turns c rest = []
  | .updating _ rest => s.allocated = 1 ∧ s.deletions = 0 ∧ s.queued = 0 ∧ turns c rest = []
  | .done => s.deletions + s.queued = s.allocated

structure Sound (s : Release) (c : UInt16) : Prop where
  fresh : s.staleReads = 0
  phase : s.PhaseSound c s.phase

theorem sound_initial (c : UInt16) : initial.Sound c := ⟨rfl, rfl, rfl, rfl⟩

variable {attached : List Attached} {c : UInt16} {data : List UInt8} {s t : Release}

theorem turns_cons_of_eq {e : Attached} (rest : List Attached) (he : e.condition = c) :
    turns c (e :: rest) = e :: turns c rest := by
  rw [turns, List.filter_cons_of_pos (by simpa using he), turns]

theorem turns_cons_of_ne {e : Attached} (rest : List Attached) (he : e.condition ≠ c) :
    turns c (e :: rest) = turns c rest := by
  rw [turns, List.filter_cons_of_neg (by simpa using he), turns]

/-- Nothing is stale as long as nothing was deleted. -/
theorem read_of_none (hnone : s.deletions = 0) : s.read = s.staleReads := by
  rw [read, if_neg (by omega)]

theorem Sound.receive (h : s.Sound c) (hphase : s.phase = .receiving)
    (hone : data = [] ∨ (turns c attached).length ≤ 1) : (s.receive attached c data).Sound c := by
  obtain ⟨hfresh, hsound⟩ := h
  rw [hphase] at hsound
  obtain ⟨hallocated, hdeletions, hqueued⟩ := hsound
  rw [Release.receive]
  split_ifs with hobserver hempty
  · exact ⟨hfresh, by show 1 + s.queued = 1; rw [hqueued]⟩
  · exact ⟨hfresh, rfl, hdeletions, hqueued, hone.resolve_left hempty⟩
  · exact ⟨hfresh, by show s.deletions + s.queued = s.allocated; omega⟩

/-- The observer whose turn it is has the message for itself. -/
theorem Sound.dispose (h : s.Sound c) {o : SmartDatum} {rest : List Attached}
    (hphase : s.phase = .updating o rest) (disposal : Disposal) (concerned : Bool) :
    { s.dispose disposal with
      staleReads := if concerned then s.read else s.staleReads
      phase := .notifying rest true }.Sound c := by
  obtain ⟨hfresh, hsound⟩ := h
  rw [hphase] at hsound
  obtain ⟨hallocated, hdeletions, hqueued, hrest⟩ := hsound
  have hread : (if concerned then s.read else s.staleReads) = 0 := by
    rw [read_of_none hdeletions, ite_self, hfresh]
  refine ⟨hread, ?_⟩
  cases disposal with
  | deleted => exact ⟨hallocated, by show s.deletions + 1 + s.queued = 1; omega, hrest⟩
  | queued => exact ⟨hallocated, by show s.deletions + (s.queued + 1) = 1; omega, hrest⟩

theorem Sound.proceed (h : s.Sound c) (hone : data = [] ∨ (turns c attached).length ≤ 1)
    (hstep : s.proceed attached c data = some t) : t.Sound c := by
  rw [Release.proceed] at hstep
  split at hstep
  · rename_i hphase
    obtain rfl := Option.some.inj hstep
    exact h.receive hphase hone
  · rename_i hphase
    obtain rfl := Option.some.inj hstep
    have hsound := h.phase
    rw [hphase] at hsound
    exact ⟨h.fresh, hsound.2.1.trans hsound.1.symm⟩
  · rename_i hphase
    obtain rfl := Option.some.inj hstep
    have hsound := h.phase
    rw [hphase] at hsound
    obtain ⟨hallocated, hdeletions, hqueued, -⟩ := hsound
    exact ⟨h.fresh, by show s.deletions + 1 + s.queued = s.allocated; omega⟩
  · rename_i e rest notified hphase
    have hsound := h.phase
    rw [hphase] at hsound
    split_ifs at hstep with hcondition
    · obtain rfl := Option.some.inj hstep
      cases notified with
      | true =>
        obtain ⟨-, -, hnobody⟩ := hsound
        rw [turns_cons_of_eq rest hcondition] at hnobody
        cases hnobody
      | false =>
        obtain ⟨hallocated, hdeletions, hqueued, hlength⟩ := hsound
        rw [turns_cons_of_eq rest hcondition, List.length_cons] at hlength
        refine ⟨(read_of_none hdeletions).trans h.fresh, hallocated, hdeletions, hqueued, ?_⟩
        exact List.eq_nil_of_length_eq_zero (by omega)
    · obtain rfl := Option.some.inj hstep
      refine ⟨h.fresh, ?_⟩
      cases notified with
      | true =>
        obtain ⟨hallocated, hcount, hnobody⟩ := hsound
        exact ⟨hallocated, hcount, (turns_cons_of_ne rest hcondition).symm.trans hnobody⟩
      | false =>
        obtain ⟨hallocated, hdeletions, hqueued, hlength⟩ := hsound
        rw [turns_cons_of_ne rest hcondition] at hlength
        exact ⟨hallocated, hdeletions, hqueued, hlength⟩
  · rename_i o rest hphase
    obtain rfl := Option.some.inj hstep
    exact h.dispose hphase (o.update data) (o.concerns data)
  · cases hstep

/-- A message is taken from a queue only after the one observer has had its turn. -/
theorem Sound.take (h : s.Sound c) (hqueued : 0 < s.queued) :
    { s with queued := s.queued - 1, deletions := s.deletions + 1 }.Sound c := by
  obtain ⟨hfresh, hsound⟩ := h
  refine ⟨hfresh, ?_⟩
  show PhaseSound { s with queued := s.queued - 1, deletions := s.deletions + 1 } c s.phase
  revert hsound
  cases s.phase with
  | receiving => exact fun hsound ↦ absurd hsound.2.2 (by omega)
  | notifying rest notified =>
    cases notified with
    | false => exact fun hsound ↦ absurd hsound.2.2.1 (by omega)
    | true =>
      rintro ⟨hallocated, hcount, hnobody⟩
      exact ⟨hallocated, by show s.deletions + 1 + (s.queued - 1) = 1; omega, hnobody⟩
  | updating o rest => exact fun hsound ↦ absurd hsound.2.2.1 (by omega)
  | done =>
    intro hsound
    have hcount : s.deletions + s.queued = s.allocated := hsound
    show s.deletions + 1 + (s.queued - 1) = s.allocated
    omega

theorem Sound.step (h : s.Sound c) (hone : data = [] ∨ (turns c attached).length ≤ 1)
    {action : ReleaseAction} (hstep : s.step attached c data action = some t) : t.Sound c := by
  cases action with
  | proceed => exact h.proceed hone hstep
  | take =>
    rw [Release.step] at hstep
    split_ifs at hstep with hqueued
    obtain rfl := Option.some.inj hstep
    exact h.take hqueued

/-- With the message in at most one place it is not deleted more often than allocated. -/
theorem Sound.deletions_le (h : s.Sound c) : s.deletions ≤ s.allocated := by
  have hsound := h.phase
  revert hsound
  cases s.phase with
  | receiving =>
    rintro ⟨-, hdeletions, -⟩
    omega
  | notifying rest notified =>
    cases notified with
    | false =>
      rintro ⟨-, hdeletions, -⟩
      omega
    | true =>
      rintro ⟨hallocated, hcount, -⟩
      omega
  | updating o rest =>
    rintro ⟨-, hdeletions, -⟩
    omega
  | done =>
    intro hsound
    have hcount : s.deletions + s.queued = s.allocated := hsound
    omega

theorem Sound.deletions_of_finished (h : s.Sound c) (hfinished : s.Finished) :
    s.deletions = s.allocated := by
  have hsound := h.phase
  rw [hfinished.1] at hsound
  have hcount : s.deletions + s.queued = s.allocated := hsound
  rwa [hfinished.2, add_zero] at hcount

theorem step_take (hqueued : 0 < s.queued) : s.step attached c data .take =
    some { s with queued := s.queued - 1, deletions := s.deletions + 1 } :=
  if_pos hqueued

/-! ### Every call comes to its end -/

/-- The steps that a place of the call is away from the end, at most. -/
def phaseWork (attached : List Attached) : ReleasePhase → ℕ
  | .receiving => 3 * attached.length + 2
  | .notifying rest _ => 3 * rest.length + 1
  | .updating _ rest => 3 * rest.length + 3
  | .done => 0

/-- The steps of the call and of the application that are left, at most. -/
def work (attached : List Attached) (s : Release) : ℕ := phaseWork attached s.phase + s.queued

/-- One disposal makes at most one more message to take. -/
theorem queued_dispose_le (s : Release) (disposal : Disposal) :
    (s.dispose disposal).queued ≤ s.queued + 1 := by
  cases disposal with
  | deleted => exact Nat.le_succ _
  | queued => exact le_refl _

/-- A step of the call brings it closer to the end. -/
theorem proceed_of_phase (attached : List Attached) (c : UInt16) (data : List UInt8)
    (hphase : s.phase ≠ .done) :
    ∃ t, s.proceed attached c data = some t ∧ t.work attached < s.work attached := by
  obtain ⟨allocated, deletions, staleReads, queued, phase⟩ := s
  cases phase with
  | receiving =>
    refine ⟨_, rfl, ?_⟩
    rw [Release.receive]
    split_ifs <;> simp only [work, phaseWork] <;> omega
  | notifying rest notified =>
    cases rest with
    | nil =>
      cases notified with
      | true => exact ⟨_, rfl, by simp only [work, phaseWork]; omega⟩
      | false => exact ⟨_, rfl, by simp only [work, phaseWork]; omega⟩
    | cons e rest =>
      by_cases hcondition : e.condition = c
      · refine ⟨_, if_pos hcondition, ?_⟩
        simp only [work, phaseWork, List.length_cons]
        omega
      · refine ⟨_, if_neg hcondition, ?_⟩
        simp only [work, phaseWork, List.length_cons]
        omega
  | updating o rest =>
    refine ⟨_, rfl, ?_⟩
    have hqueued := queued_dispose_le ⟨allocated, deletions, staleReads, queued, .updating o rest⟩
      (o.update data)
    simp only [work, phaseWork] at hqueued ⊢
    omega
  | done => exact absurd rfl hphase

/-- As long as the call is not finished, some step is enabled and brings it closer to the end. -/
theorem exists_step (attached : List Attached) (c : UInt16) (data : List UInt8)
    (hrest : ¬s.Finished) :
    ∃ action t, s.step attached c data action = some t ∧ t.work attached < s.work attached := by
  by_cases hphase : s.phase = .done
  · have hqueued : 0 < s.queued := Nat.pos_of_ne_zero fun hzero ↦ hrest ⟨hphase, hzero⟩
    refine ⟨.take, _, step_take hqueued, ?_⟩
    show phaseWork attached s.phase + (s.queued - 1) < phaseWork attached s.phase + s.queued
    omega
  · obtain ⟨t, hstep, hwork⟩ := proceed_of_phase attached c data hphase
    exact ⟨.proceed, t, hstep, hwork⟩

/-- From every state the call can be brought to its end. -/
theorem exists_finished (attached : List Attached) (c : UInt16) (data : List UInt8) (s : Release) :
    ∃ t, Reaches (step attached c data) Unguarded s t ∧ t.Finished := by
  induction hwork : s.work attached using Nat.strong_induction_on generalizing s with
  | _ n ih =>
    by_cases hrest : s.Finished
    · exact ⟨s, Reaches.refl s, hrest⟩
    · obtain ⟨action, r, hstep, hless⟩ := exists_step attached c data hrest
      obtain ⟨t, hrun, hfinished⟩ := ih _ (hwork ▸ hless) r rfl
      exact ⟨t, ((Reaches.refl s).next action trivial hstep).trans hrun, hfinished⟩

/-! ### Two observers -/

theorem reaches_step {action : ReleaseAction} (hstep : s.step attached c data action = some t) :
    Reaches (step attached c data) Unguarded s t :=
  (Reaches.refl s).next action trivial hstep

/-- The loop passes the entries with other conditions and comes to the next one that gets a turn. -/
theorem reaches_turn (attached : List Attached) (data : List UInt8) {rest more : List Attached}
    {e : Attached} {notified : Bool} (hphase : s.phase = .notifying rest notified)
    (hturns : turns c rest = e :: more) :
    ∃ rest', turns c rest' = more ∧
      Reaches (step attached c data) Unguarded s { s with
        staleReads := s.read
        phase := .updating e.observer rest' } := by
  induction rest generalizing s with
  | nil => cases hturns
  | cons x rest ih =>
    by_cases hcondition : x.condition = c
    · rw [turns_cons_of_eq rest hcondition] at hturns
      obtain ⟨rfl, hmore⟩ := List.cons.inj hturns
      have hturn : s.step attached c data .proceed = some { s with
          staleReads := s.read
          phase := .updating x.observer rest } := by
        rw [Release.step, Release.proceed, hphase]
        exact if_pos hcondition
      exact ⟨rest, hmore, reaches_step hturn⟩
    · rw [turns_cons_of_ne rest hcondition] at hturns
      have hskip : s.step attached c data .proceed =
          some { s with phase := .notifying rest notified } := by
        rw [Release.step, Release.proceed, hphase]
        exact if_neg hcondition
      obtain ⟨rest', hmore, hrun⟩ := ih
        (s := { s with phase := .notifying rest notified }) rfl hturns
      exact ⟨rest', hmore, (reaches_step hskip).trans hrun⟩

/-- After the turn of an observer the message may be deleted before the loop goes on: by the
observer, or by the application that takes it from the queue. -/
theorem reaches_deleted (attached : List Attached) (c : UInt16) (data : List UInt8) {o : SmartDatum}
    {rest : List Attached} (hphase : s.phase = .updating o rest) :
    ∃ t, Reaches (step attached c data) Unguarded s t ∧ t.phase = .notifying rest true ∧
      0 < t.deletions := by
  have hstep : s.step attached c data .proceed = some { s.dispose (o.update data) with
      staleReads := if o.concerns data then s.read else s.staleReads
      phase := .notifying rest true } := by
    rw [Release.step, Release.proceed, hphase]
  have hrun := reaches_step hstep
  cases hdisposal : o.update data with
  | deleted =>
    rw [hdisposal] at hrun
    exact ⟨_, hrun, rfl, Nat.succ_pos _⟩
  | queued =>
    rw [hdisposal] at hrun
    exact ⟨_, hrun.next .take trivial (step_take (Nat.succ_pos _)), rfl, Nat.succ_pos _⟩

/-- With two observers there is a run in which the second reads a deleted message. -/
theorem stale_of_two_turns (hdata : data ≠ []) (htwo : 1 < (turns c attached).length) :
    ∃ s, Reaches (step attached c data) Unguarded initial s ∧ 0 < s.staleReads := by
  obtain ⟨e, e', more, hturns⟩ : ∃ e e' more, turns c attached = e :: e' :: more := by
    revert htwo
    match turns c attached with
    | [] => exact fun hlength ↦ absurd hlength (by decide)
    | [_] => exact fun hlength ↦ absurd hlength (by simp)
    | e :: e' :: more => exact fun _ ↦ ⟨e, e', more, rfl⟩
  have hany : (attached.any fun x ↦ x.condition = c) = true := by
    have he : e ∈ turns c attached := hturns ▸ List.mem_cons_self
    exact List.any_eq_true.mpr ⟨e, List.mem_filter.mp he⟩
  have hreceive : initial.step attached c data .proceed =
      some ⟨1, 0, 0, 0, .notifying attached false⟩ := by
    show some (initial.receive attached c data) = _
    rw [Release.receive, if_pos hany, if_neg hdata]
    rfl
  have hstart := reaches_step hreceive
  obtain ⟨rest, hrest, hfirst⟩ := reaches_turn attached data
    (s := ⟨1, 0, 0, 0, .notifying attached false⟩) rfl hturns
  obtain ⟨t, hdeleted, hphase, hdeletions⟩ := reaches_deleted attached c data
    (s := { Release.mk 1 0 0 0 (.notifying attached false) with
      staleReads := read ⟨1, 0, 0, 0, .notifying attached false⟩
      phase := .updating e.observer rest }) rfl
  obtain ⟨rest', -, hsecond⟩ := reaches_turn attached data hphase hrest
  refine ⟨_, ((hstart.trans hfirst).trans hdeleted).trans hsecond, ?_⟩
  show 0 < t.read
  rw [read, if_pos hdeletions]
  exact Nat.succ_pos _

/-- Over all runs of one `Communicator::update`, with the application taking messages at any moment:
no observer reads a deleted message, the message is not deleted more often than allocated, the call
always comes to its end, and there it was deleted exactly as often as allocated, if and only if
nothing was received or at most one observer is attached for the condition. -/
theorem released_once_iff (attached : List Attached) (c : UInt16) (data : List UInt8) :
    (∀ s, Reaches (step attached c data) Unguarded initial s →
      s.staleReads = 0 ∧ s.deletions ≤ s.allocated ∧ (s.Finished → s.deletions = s.allocated) ∧
        ∃ t, Reaches (step attached c data) Unguarded s t ∧ t.Finished) ↔
      data = [] ∨ (attached.filter fun e ↦ e.condition = c).length ≤ 1 := by
  constructor
  · intro hall
    by_contra hmany
    rw [not_or, not_le] at hmany
    obtain ⟨s, hrun, hstale⟩ := stale_of_two_turns hmany.1 hmany.2
    exact absurd (hall s hrun).1 hstale.ne'
  · intro hone s hrun
    have h : s.Sound c := hrun.invariant (P := fun s ↦ s.Sound c)
      (fun _ _ _ h _ hstep ↦ h.step hone hstep) (sound_initial c)
    exact ⟨h.fresh, h.deletions_le, h.deletions_of_finished, exists_finished attached c data s⟩

/-- A producer of one unit and a consumer of another on the communicator of one component. -/
def twoUnits : List Attached := [⟨⟨.producer, 1, false⟩, 0⟩, ⟨⟨.consumer, 2, false⟩, 0⟩]

/-- A response of the second unit: the producer deletes it, the consumer reads it after that, queues
it, and the application deletes it again. -/
theorem released_twice :
    ∃ s, Reaches (step twoUnits 0 [1, 2, 0, 0, 0, 7]) Unguarded initial s ∧ s.Finished ∧
      s.allocated = 1 ∧ s.deletions = 2 ∧ 0 < s.staleReads := by
  have hrun : run (step twoUnits 0 [1, 2, 0, 0, 0, 7]) Unguarded initial
      [.proceed, .proceed, .proceed, .proceed, .proceed, .proceed, .take] =
        some ⟨1, 2, 2, 0, .done⟩ := by decide +kernel
  exact ⟨_, reaches_of_run _ hrun, ⟨rfl, rfl⟩, rfl, rfl, Nat.succ_pos _⟩

end Release

end VehicleComm.SmartData
