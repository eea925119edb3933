import VehicleComm.SmartData.Announcements
import VehicleComm.SmartData.Subscription

/-!
# What is asked for

A binding of a producer goes back to an interest message that the producer took, the last one from
its address, and no message since then came with another quadrant (`Demand.sound_of_reaches`): the
clearing of the cache leaves none from before a change of the quadrant. The tracker of a road side
unit announces no interest but with the unit and the period of a message that it heard
(`Tracker.announced_of_reaches`).

Both are invariants of one component that takes any messages allowed by a guard on the run
(`Demand.Takes`, `Tracker.Takes`), with the reaper or the broker in between. Between the exchange of
the quadrant and the clearing the bindings of the old quadrant are still there, so the part about
the quadrant leaves out the states that are just about to clear (`Handling.clearing`).
-/

set_option autoImplicit false
set_option relaxedAutoImplicit false

namespace VehicleComm.SmartData

open Library Network Channel

/-- An interest in the unit that is no disinterest. -/
def isInterestIn (unit : UInt32) (data : List UInt8) : Bool :=
  isInterest data && headerUnit data = unit && !isDisinterest data

theorem isInterestIn_iff {unit : UInt32} {data : List UInt8} : isInterestIn unit data = true ↔
    isInterest data = true ∧ headerUnit data = unit ∧ isDisinterest data = false := by
  simp [isInterestIn, and_assoc]

/-- What is cut behind the message is still one, or was none. -/
theorem isInterestIn_take {unit : UInt32} {data : List UInt8} {count : ℕ}
    (hcount : interestMessageSize ≤ count) :
    isInterestIn unit (data.take count) = isInterestIn unit data := by
  rw [interestMessageSize] at hcount
  have hget : ∀ i < count, (data.take count).getD i 0 = data.getD i 0 := fun i hi ↦ by
    rw [List.getD_eq_getElem?_getD, List.getD_eq_getElem?_getD, List.getElem?_take_of_lt hi]
  have hlength : decide (interestMessageSize ≤ (data.take count).length) =
      decide (interestMessageSize ≤ data.length) := by
    rw [decide_eq_decide, List.length_take, le_min_iff]
    exact and_iff_right hcount
  rw [isInterestIn, isInterestIn, isInterest, isInterest, headerUnit, headerUnit, headerKind,
    headerKind, isDisinterest, isDisinterest, slice_take (by omega), hget 0 (by omega),
    hget 13 (by omega), hlength]

/-! ### The bindings of a producer -/

/-- A producer, and for the record the interest messages whose operation it has carried out. -/
structure Demand where
  producer : Producer
  taken : List Arrival

namespace Demand

def initial (unit : UInt32) (lifetimeMinUs : UInt64) (lifetimeFactor : UInt32) : Demand :=
  ⟨.initial unit lifetimeMinUs lifetimeFactor, []⟩

def carriesOut (P : Producer) : ProducerAction → List Arrival
  | .apply _ =>
    match P.handling with
    | .applying m => [m]
    | _ => []
  | _ => []

def step (s : Demand) (action : ProducerAction) : Option Demand :=
  (s.producer.step action).map fun P ↦ ⟨P, s.taken ++ carriesOut s.producer action⟩

/-- Guard of a run in which the messages meet a condition. -/
def Takes (Q : Arrival → Prop) (_ : Demand) : ProducerAction → Prop
  | .update m => Q m
  | _ => True

instance (Q : Arrival → Prop) [DecidablePred Q] (s : Demand) (action : ProducerAction) :
    Decidable (Takes Q s action) :=
  match action with
  | .update m => inferInstanceAs (Decidable (Q m))
  | .clear | .apply _ | .reap _ => isTrue trivial

theorem Takes.mono {Q Q' : Arrival → Prop} (hsub : ∀ m, Q m → Q' m) {s : Demand}
    {action : ProducerAction} (h : Takes Q s action) : Takes Q' s action := by
  cases action with
  | update m => exact hsub m h
  | clear | apply nowNs | reap nowNs => trivial

/-- The binding is that of message `m`: since then none came from its address, and none with another
quadrant. -/
def Serves (s : Demand) (b : Binding) (m : Arrival) : Prop :=
  isInterestIn s.producer.unit m.data = true ∧ m.address = b.address ∧
    b.periodUs = BindingCache.atLeastOne (interestPeriod m.data) ∧
    ∃ front back, s.taken = front ++ m :: back ∧
      ∀ later ∈ back, later.address ≠ b.address ∧ later.quadrant = m.quadrant

/-- What holds between any two steps, of messages that meet a condition. -/
structure Sound (Q : Arrival → Prop) (s : Demand) : Prop where
  responding : s.producer.cache.Responding
  unit : ∀ b ∈ s.producer.cache.bindings, b.unit = s.producer.unit
  met : ∀ m ∈ s.taken, Q m
  inHand : ∀ m, s.producer.handling = .applying m ∨ s.producer.handling = .clearing m →
    Q m ∧ s.producer.handles m = true ∧ m.quadrant = s.producer.lastSeenQuad
  served : ∀ b ∈ s.producer.cache.bindings, ∃ m, s.Serves b m ∧
    ((∀ other, s.producer.handling ≠ .clearing other) → m.quadrant = s.producer.lastSeenQuad)

theorem sound_initial (Q : Arrival → Prop) (unit : UInt32) (lifetimeMinUs : UInt64)
    (lifetimeFactor : UInt32) : (initial unit lifetimeMinUs lifetimeFactor).Sound Q where
  responding := BindingCache.responding_of_empty rfl rfl
  unit := fun b hb ↦ absurd hb List.not_mem_nil
  met := fun m hm ↦ absurd hm List.not_mem_nil
  inHand := fun m h ↦ by rcases h with h | h <;> cases h
  served := fun b hb ↦ absurd hb List.not_mem_nil

variable {Q : Arrival → Prop} {s t : Demand} {m : Arrival}

theorem Sound.update (h : s.Sound Q) (hm : Q m) (hstep : s.step (.update m) = some t) :
    t.Sound Q := by
  obtain ⟨P, hP, rfl⟩ := Option.map_eq_some_iff.mp hstep
  have hrecord : s.taken ++ carriesOut s.producer (.update m) = s.taken := List.append_nil _
  rw [hrecord]
  by_cases hhandles : s.producer.handles m = true
  · obtain ⟨hidle, rfl⟩ := Producer.step_update hhandles hP
    refine ⟨h.responding, h.unit, h.met, fun m' hhand ↦ ?_, fun b hb ↦ ?_⟩
    · have hsame : m' = m := by
        dsimp only at hhand
        split_ifs at hhand
        · rcases hhand with hhand | hhand
          · cases hhand
          · exact (Handling.clearing.inj hhand).symm
        · rcases hhand with hhand | hhand
          · exact (Handling.applying.inj hhand).symm
          · cases hhand
      rw [hsame]
      exact ⟨hm, hhandles, rfl⟩
    · obtain ⟨source, hserves, hseen⟩ := h.served b hb
      refine ⟨source, hserves, fun hnot ↦ ?_⟩
      have hsame : s.producer.lastSeenQuad = m.quadrant := by
        by_contra hne
        exact hnot m (if_pos hne)
      have hnone : ∀ other, s.producer.handling ≠ .clearing other := fun other hclearing ↦ by
        rw [hidle] at hclearing
        cases hclearing
      exact (hseen hnone).trans hsame
  · have hsame : P = s.producer := by
      rw [Producer.step] at hP
      split at hP
      · rw [← Option.some.inj hP, Producer.update, if_neg hhandles]
      · cases hP
    rw [hsame]
    exact h

theorem Sound.clear (h : s.Sound Q) (hstep : s.step .clear = some t) : t.Sound Q := by
  obtain ⟨P, hP, rfl⟩ := Option.map_eq_some_iff.mp hstep
  have hrecord : s.taken ++ carriesOut s.producer .clear = s.taken := List.append_nil _
  rw [hrecord]
  obtain ⟨m, hclearing, rfl⟩ := Producer.step_clear hP
  refine ⟨h.responding.apply .clear, fun b hb ↦ absurd hb List.not_mem_nil, h.met,
    fun m' hhand ↦ ?_, fun b hb ↦ absurd hb List.not_mem_nil⟩
  obtain rfl : m' = m := by
    rcases hhand with hhand | hhand
    · exact (Handling.applying.inj hhand).symm
    · cases hhand
  exact h.inHand m' (Or.inr hclearing)

/-- A message from another address with the same quadrant is carried out. -/
theorem Serves.concat {b : Binding} {source : Arrival} (h : s.Serves b source)
    (haddress : m.address ≠ b.address) (hquadrant : m.quadrant = source.quadrant)
    (hunit : t.producer.unit = s.producer.unit) (htaken : t.taken = s.taken ++ [m]) :
    t.Serves b source := by
  obtain ⟨hinterest, hfrom, hperiod, front, back, hsplit, hlater⟩ := h
  refine ⟨hunit ▸ hinterest, hfrom, hperiod, front, back ++ [m], ?_, fun later hin ↦ ?_⟩
  · rw [htaken, hsplit, List.append_assoc, List.cons_append]
  · rcases List.mem_append.mp hin with hold | hnew
    · exact hlater later hold
    · rw [List.mem_singleton.mp hnew]
      exact ⟨haddress, hquadrant⟩

theorem Sound.apply (h : s.Sound Q) {nowNs : Int64} (hstep : s.step (.apply nowNs) = some t) :
    t.Sound Q := by
  obtain ⟨P, hP, rfl⟩ := Option.map_eq_some_iff.mp hstep
  obtain ⟨m, happlying, rfl⟩ := Producer.step_apply hP
  obtain ⟨hm, hhandles, hquadrant⟩ := h.inHand m (Or.inl happlying)
  have hcarries : carriesOut s.producer (.apply nowNs) = [m] := by
    rw [carriesOut, happlying]
  rw [hcarries]
  have hnotClearing : ∀ other, s.producer.handling ≠ .clearing other := fun other hclearing ↦ by
    rw [happlying] at hclearing
    cases hclearing
  have hbindings : (s.producer.cache.apply (s.producer.operation m nowNs)).bindings =
      s.producer.cache.edited (s.producer.operation m nowNs) :=
    BindingCache.bindings_apply h.responding.named _
  -- a binding of another address stays that of its message
  have hother : ∀ b ∈ s.producer.cache.bindings, b.address ≠ m.address →
      ∃ source, Serves ⟨{ s.producer.operate (s.producer.operation m nowNs) with
        handling := .idle }, s.taken ++ [m]⟩ b source ∧
          source.quadrant = s.producer.lastSeenQuad := by
    intro b hb hne
    obtain ⟨source, hserves, hseen⟩ := h.served b hb
    have hsource := hseen hnotClearing
    exact ⟨source, hserves.concat hne.symm (hquadrant.trans hsource.symm) rfl rfl, hsource⟩
  have hmet : ∀ m' ∈ s.taken ++ [m], Q m' := fun m' hin ↦ by
    rcases List.mem_append.mp hin with hold | hnew
    · exact h.met m' hold
    · rwa [List.mem_singleton.mp hnew]
  have hidle : ∀ m', Handling.idle = .applying m' ∨ Handling.idle = .clearing m' →
      Q m' ∧ s.producer.handles m' = true ∧ m'.quadrant = s.producer.lastSeenQuad := by
    intro m' hhand
    rcases hhand with hhand | hhand <;> cases hhand
  by_cases hdisinterest : isDisinterest m.data = true
  · have hedited : ∀ b ∈ (s.producer.cache.apply (s.producer.operation m nowNs)).bindings,
        b ∈ s.producer.cache.bindings ∧ b.address ≠ m.address := by
      intro b hb
      rw [hbindings, Producer.operation, if_pos hdisinterest, BindingCache.edited,
        List.mem_filter, decide_eq_true_iff] at hb
      exact ⟨hb.1, fun haddress ↦ hb.2 ⟨h.unit b hb.1, haddress⟩⟩
    refine ⟨h.responding.apply _, fun b hb ↦ h.unit b (hedited b hb).1, hmet, hidle, fun b hb ↦ ?_⟩
    obtain ⟨source, hserves, hsource⟩ := hother b (hedited b hb).1 (hedited b hb).2
    exact ⟨source, hserves, fun _ ↦ hsource⟩
  · have hinterest : isInterestIn s.producer.unit m.data = true := by
      rw [Producer.handles, Bool.and_eq_true, Bool.and_eq_true, decide_eq_true_iff] at hhandles
      rw [isInterestIn_iff]
      exact ⟨hhandles.2, of_decide_eq_true hhandles.1.2, Bool.eq_false_iff.mpr hdisinterest⟩
    have hedited : ∀ b ∈ (s.producer.cache.apply (s.producer.operation m nowNs)).bindings,
        (b ∈ s.producer.cache.bindings ∧ b.address ≠ m.address) ∨
          b.unit = s.producer.unit ∧ b.address = m.address ∧
            b.periodUs = BindingCache.atLeastOne (interestPeriod m.data) := by
      intro b hb
      rw [hbindings, Producer.operation, if_neg hdisinterest, BindingCache.edited] at hb
      rcases h.responding.unique.mem_upsert hb (fun _ hkey ↦ hkey) rfl with ⟨hkey, hwas⟩ |
        ⟨hkey, hold⟩
      · obtain ⟨hunit, haddress⟩ := Prod.mk.inj hkey
        refine Or.inr ⟨hunit, haddress, ?_⟩
        rw [← hwas]
        cases lookup Binding.key (s.producer.unit, m.address) s.producer.cache.bindings <;> rfl
      · refine Or.inl ⟨hold, fun haddress ↦ hkey ?_⟩
        rw [Binding.key, h.unit b hold, haddress]
    refine ⟨h.responding.apply _, fun b hb ↦ ?_, hmet, hidle, fun b hb ↦ ?_⟩
    · rcases hedited b hb with ⟨hold, -⟩ | ⟨hunit, -⟩
      · exact h.unit b hold
      · exact hunit
    · rcases hedited b hb with ⟨hold, hne⟩ | ⟨-, haddress, hperiod⟩
      · obtain ⟨source, hserves, hsource⟩ := hother b hold hne
        exact ⟨source, hserves, fun _ ↦ hsource⟩
      · exact ⟨m, ⟨hinterest, haddress.symm, hperiod, s.taken, [], rfl, by simp⟩,
          fun _ ↦ hquadrant⟩

theorem Sound.reap (h : s.Sound Q) {nowNs : Int64} (hstep : s.step (.reap nowNs) = some t) :
    t.Sound Q := by
  obtain ⟨P, hP, rfl⟩ := Option.map_eq_some_iff.mp hstep
  obtain rfl := Option.some.inj hP
  have hrecord : s.taken ++ carriesOut s.producer (.reap nowNs) = s.taken := List.append_nil _
  rw [hrecord]
  have hbindings : ∀ b ∈ (s.producer.cache.apply (.reap nowNs)).bindings,
      b ∈ s.producer.cache.bindings := by
    intro b hb
    rw [BindingCache.bindings_apply h.responding.named] at hb
    exact List.mem_of_mem_filter hb
  exact ⟨h.responding.apply (.reap nowNs), fun b hb ↦ h.unit b (hbindings b hb), h.met, h.inHand,
    fun b hb ↦ h.served b (hbindings b hb)⟩

theorem Sound.step (h : s.Sound Q) {action : ProducerAction} (hguard : Takes Q s action)
    (hstep : s.step action = some t) : t.Sound Q := by
  cases action with
  | update m => exact h.update hguard hstep
  | clear => exact h.clear hstep
  | apply nowNs => exact h.apply hstep
  | reap nowNs => exact h.reap hstep

theorem unit_step {action : ProducerAction} (hstep : s.step action = some t) :
    t.producer.unit = s.producer.unit := by
  obtain ⟨P, hP, rfl⟩ := Option.map_eq_some_iff.mp hstep
  cases action with
  | update m =>
    rw [Producer.step] at hP
    split at hP
    · obtain rfl := Option.some.inj hP
      dsimp only
      rw [Producer.update]
      split_ifs <;> rfl
    · cases hP
  | clear =>
    obtain ⟨m, -, rfl⟩ := Producer.step_clear hP
    rfl
  | apply nowNs =>
    obtain ⟨m, -, rfl⟩ := Producer.step_apply hP
    rfl
  | reap nowNs =>
    obtain rfl := Option.some.inj hP
    rfl

theorem sound_of_reaches {unit : UInt32} {lifetimeMinUs : UInt64} {lifetimeFactor : UInt32}
    (hrun : Reaches step (Takes Q) (initial unit lifetimeMinUs lifetimeFactor) s) :
    s.Sound Q ∧ s.producer.unit = unit :=
  hrun.invariant (P := fun r ↦ r.Sound Q ∧ r.producer.unit = unit)
    (fun _ _ _ h hguard hstep ↦ ⟨h.1.step hguard hstep, (unit_step hstep).trans h.2⟩)
    ⟨sound_initial Q unit lifetimeMinUs lifetimeFactor, rfl⟩

end Demand

/-! ### The announcements of a tracker -/

namespace Tracker

/-- Guard of a run in which the messages meet a condition. -/
def Takes (Q : Arrival → Prop) (_ : Tracker) : TrackerAction → Prop
  | .update m _ => Q m
  | _ => True

/-- A message that met the condition asked for the unit with this period. -/
def Asked (Q : Arrival → Prop) (unit : UInt32) (periodUs : UInt64) : Prop :=
  ∃ m, Q m ∧ isInterestIn unit m.data = true ∧ interestPeriod m.data = periodUs

/-- What holds between any two steps, of messages that meet a condition. -/
structure Grounded (Q : Arrival → Prop) (T : Tracker) : Prop where
  unique : KeyUnique Entry.key T.interests
  interests : ∀ e ∈ T.interests, Asked Q e.unit e.periodUs
  announced : ∀ message ∈ T.sent ++ T.unsent, message.disinterest = false →
    Asked Q message.unit message.periodUs

variable {Q : Arrival → Prop} {T T' : Tracker}

theorem grounded_initial (Q : Arrival → Prop) (clock : ℤ) : (initial clock).Grounded Q where
  unique := List.nodup_nil
  interests := fun _ he ↦ absurd he List.not_mem_nil
  announced := fun _ hin ↦ absurd hin List.not_mem_nil

/-- Some interests are left, and no message is added. -/
theorem Grounded.of_subset (h : T.Grounded Q) (hunique : KeyUnique Entry.key T'.interests)
    (hinterests : ∀ e ∈ T'.interests, e ∈ T.interests)
    (hmessages : T'.sent ++ T'.unsent = T.sent ++ T.unsent) : T'.Grounded Q where
  unique := hunique
  interests := fun e he ↦ h.interests e (hinterests e he)
  announced := hmessages ▸ h.announced

theorem Grounded.update (h : T.Grounded Q) {m : Arrival} (hm : Q m) (nowNs : ℤ) :
    (T.update m nowNs).Grounded Q := by
  unfold Tracker.update
  split_ifs with hinterest hdisinterest
  · exact h.of_subset (h.unique.filter _) (fun e he ↦ List.mem_of_mem_filter he) rfl
  · refine ⟨h.unique.upsert (fun _ hkey ↦ hkey) rfl, fun e he ↦ ?_, h.announced⟩
    rcases mem_register h.unique he with rfl | ⟨-, hold⟩
    · exact ⟨m, hm, isInterestIn_iff.mpr ⟨hinterest, rfl, Bool.eq_false_iff.mpr hdisinterest⟩, rfl⟩
    · exact h.interests e hold
  · exact h

/-- The broker announces what is left after the purge, with the shortest period. -/
theorem Grounded.lockedTick (h : T.Grounded Q) (nowNs : ℤ) : (T.lockedTick nowNs).Grounded Q := by
  have hleft : ∀ e ∈ (T.lockedTick nowNs).interests, e ∈ T.interests := fun e he ↦
    ((interests_purge T nowNs e).mp he).1
  have hunique : KeyUnique Entry.key (T.lockedTick nowNs).interests := by
    show KeyUnique Entry.key (T.purge nowNs).interests
    rw [purge, foldl_bury]
    exact h.unique.filter _
  refine ⟨hunique, fun e he ↦ h.interests e (hleft e he), fun message hin hno ↦ ?_⟩
  rcases List.mem_append.mp hin with hold | hnew
  · have hsent : message ∈ T.sent := sent_purge T nowNs ▸ hold
    exact h.announced message (List.mem_append_left _ hsent) hno
  · rcases List.mem_append.mp hnew with hstop | hrepeat
    · obtain ⟨unit, -, rfl⟩ := List.mem_map.mp hstop
      cases hno
    · obtain ⟨⟨unit, period⟩, hactive, rfl⟩ := List.mem_map.mp hrepeat
      rw [Std.TreeMap.mem_toList_iff_getElem?_eq_some] at hactive
      have hleast := leastOf_activeOf (T.purge nowNs).interests unit
      rw [hactive] at hleast
      obtain ⟨e, he, hunit, hperiod⟩ := hleast.isLeast.1
      obtain rfl : e.unit = unit := hunit
      obtain rfl : e.periodUs = period := hperiod
      exact h.interests e (hleft e he)

theorem Grounded.step (h : T.Grounded Q) {action : TrackerAction} (hguard : Takes Q T action)
    (hstep : T.step action = some T') : T'.Grounded Q := by
  obtain ⟨next, hact, rfl⟩ := Option.map_eq_some_iff.mp hstep
  suffices hnext : next.Grounded Q from
    hnext.of_subset hnext.unique (fun _ he ↦ he) rfl
  cases action with
  | update m nowNs =>
    obtain rfl := Option.some.inj hact
    exact h.update hguard nowNs
  | onPresence source nowNs =>
    obtain rfl := Option.some.inj hact
    exact h.of_subset h.unique (fun _ he ↦ he) rfl
  | startTick nowNs =>
    rw [act] at hact
    split at hact
    · next hasleep =>
      obtain rfl := Option.some.inj hact
      exact h.of_subset h.unique (fun _ he ↦ he) (by simp [unsent, hasleep])
    · cases hact
  | lockedTick =>
    rw [act] at hact
    split at hact
    · obtain rfl := Option.some.inj hact
      exact h.lockedTick _
    · cases hact
  | send =>
    rw [act] at hact
    split at hact
    · next hdone =>
      obtain rfl := Option.some.inj hact
      exact h.of_subset h.unique (fun _ he ↦ he) (by simp [unsent, hdone])
    · next message rest hsending =>
      obtain rfl := Option.some.inj hact
      exact h.of_subset h.unique (fun _ he ↦ he) (by simp [unsent, hsending])
    · cases hact

/-- In every run: each interest that was announced has the unit and the period of a message that the
tracker heard. -/
theorem announced_of_reaches {clock : ℤ} (hrun : Reaches step (Takes Q) (initial clock) T)
    {unit : UInt32} {periodUs : UInt64} (hsent : ⟨unit, periodUs, false⟩ ∈ T.sent) :
    Asked Q unit periodUs :=
  (hrun.invariant (fun _ _ _ h hguard hstep ↦ h.step hguard hstep)
    (grounded_initial Q clock)).announced _ (List.mem_append_left _ hsent) rfl

end Tracker

end VehicleComm.SmartData
