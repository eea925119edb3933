import VehicleComm.SharedMemory.RingSafety

/-!
# Processes that leave

`engine_close` lowers the `active` flag of a process, and no function of the ring reads it: the
`read_seq` of a process that has left stays where it was, and `least_read_seq_not_me` goes on
ranging over it. So the permits are accounted for over the readers that are still active exactly
when no departed process stands behind all of them (`permits_active_iff`).

A run keeps pace (`KeepsPace`) when every step that could bring such a state about, the departure of
a process and the read of a frame, leaves nobody behind. Along such runs departed processes hold no
slot (`departed_hold_nothing`). In any other a writer may wait for ever: a departed reader that is a
whole ring behind keeps every slot (`not_departedHoldNothing_departure` shows one frame of it).
-/

set_option autoImplicit false
set_option relaxedAutoImplicit false

namespace VehicleComm.SharedMemory

open Library

variable {m : ℕ} {τ : Type*}

/-! ### The readers that are still active -/

/-- The `read_seq` of the active processes. -/
def activeReadSeqs (region : Region m) : Set ℕ :=
  {seq | ∃ i, region.activeReader i = true ∧ region.readSeq i = seq}

/-- A departed process has some active process not ahead of it, unless nobody is active. -/
def NobodyLeftBehind (region : Region m) : Prop :=
  (∀ k, region.activeReader k = false) ∨
    ∀ j, region.activeReader j = false →
      ∃ k, region.activeReader k = true ∧ region.readSeq k ≤ region.readSeq j

/-- The same over the least `read_seq` of the active processes. -/
theorem nobodyLeftBehind_iff {region : Region m} {least : ℕ}
    (hleast : IsLeast (activeReadSeqs region) least) :
    NobodyLeftBehind region ↔ ∀ j, region.activeReader j = false → least ≤ region.readSeq j := by
  obtain ⟨⟨first, hfirst, hread⟩, hlower⟩ := hleast
  constructor
  · rintro (hnone | hsome) j hj
    · rw [hnone first] at hfirst
      cases hfirst
    · obtain ⟨k, hk, hle⟩ := hsome j hj
      exact (hlower ⟨k, hk, rfl⟩).trans hle
  · intro hbound
    exact Or.inr fun j hj ↦ ⟨first, hfirst, hread ▸ hbound j hj⟩

theorem Region.attach_activeReader (region : Region m) (i j : Fin (m + 1)) :
    (region.attach i).activeReader j = if j = i then true else region.activeReader j := by
  by_cases hj : j = i
  · subst hj
    by_cases hgateway : j = gatewaySlot <;> simp [activeReader, attach, hgateway]
  · by_cases hgateway : j = gatewaySlot
    · subst hgateway
      simp [activeReader, attach, Ne.symm hj, hj]
    · simp [activeReader, attach, hgateway, hj]

theorem Region.detach_activeReader (region : Region m) (i j : Fin (m + 1)) :
    (region.detach i).activeReader j = if j = i then false else region.activeReader j := by
  by_cases hgateway : i = gatewaySlot
  · subst hgateway
    by_cases hj : j = gatewaySlot <;> simp [activeReader, detach, hj]
  · by_cases hj : j = i
    · subst hj
      simp [activeReader, detach, hgateway]
    · by_cases hzero : j = gatewaySlot
      · subst hzero
        simp [activeReader, detach, hgateway, hj]
      · simp [activeReader, detach, hgateway, hj, hzero]

@[simp] theorem Region.advance_activeReader (region : Region m) (i : Fin (m + 1)) :
    (region.advance i).activeReader = region.activeReader := by
  funext j
  by_cases hji : j = i
  · subst hji
    simp [activeReader, advance]
  · simp [activeReader, advance, Function.update_of_ne hji]

@[simp] theorem Region.publish_activeReader (region : Region m) (request : WriteRequest) :
    (region.publish request).activeReader = region.activeReader := rfl

/-! ### One step -/

/-- Guard of a run in which everybody attaches before the first write and no step leaves a departed
process behind: a process lowers its flag only when another active one has consumed no more than it,
or none is left, and a reader consumes a frame that a departed process has not consumed only when
another active reader has not consumed it either. -/
def KeepsPace (s : System m τ) : Action m τ → Prop
  | .engineClose i => s.mains i = .closeLocked →
      (∃ k, k ≠ i ∧ s.region.activeReader k = true ∧ s.region.readSeq k ≤ s.region.readSeq i) ∨
        ∀ k, k ≠ i → s.region.activeReader k = false
  | .receive i => s.readers i = .locked → s.region.activeReader i = true →
      ∀ j, s.region.activeReader j = false → s.region.readSeq j = s.region.readSeq i →
        ∃ k, k ≠ i ∧ s.region.activeReader k = true ∧ s.region.readSeq k ≤ s.region.readSeq i
  | action => AttachedFirst s action

theorem attachedFirst_of_keepsPace {s : System m τ} {action : Action m τ}
    (hguard : KeepsPace s action) : AttachedFirst s action := by
  cases action with
  | callWriteSlot w p request => exact hguard
  | _ => trivial

/-- The section of `engine_init` before the first frame. -/
theorem NobodyLeftBehind.attach {region : Region m} {i : Fin (m + 1)}
    (hempty : region.nextWriteSeq = 0) : NobodyLeftBehind (region.attach i) := by
  refine Or.inr fun j hj ↦ ⟨i, by simp [Region.attach_activeReader], ?_⟩
  rw [Region.attach_readSeq, Function.update_self, hempty]
  exact Nat.zero_le _

/-- The section of `engine_close`. -/
theorem NobodyLeftBehind.detach {region : Region m} {i : Fin (m + 1)}
    (h : NobodyLeftBehind region)
    (hguard : (∃ k, k ≠ i ∧ region.activeReader k = true ∧ region.readSeq k ≤ region.readSeq i) ∨
      ∀ k, k ≠ i → region.activeReader k = false) : NobodyLeftBehind (region.detach i) := by
  rcases hguard with ⟨other, hother, hactive, hle⟩ | hnone
  · refine Or.inr fun j hj ↦ ?_
    rw [Region.detach_readSeq]
    -- whoever was not ahead of `j` is still there, or was `i`, and then `other` is not ahead either
    by_cases hji : j = i
    · exact ⟨other, by simpa [Region.detach_activeReader, hother] using hactive,
        by rw [hji]; exact hle⟩
    · rcases h with hzero | hsome
      · rw [hzero other] at hactive
        cases hactive
      · obtain ⟨k, hk, hkj⟩ := hsome j (by simpa [Region.detach_activeReader, hji] using hj)
        by_cases hki : k = i
        · refine ⟨other, by simpa [Region.detach_activeReader, hother] using hactive, ?_⟩
          exact hle.trans (hki ▸ hkj)
        · exact ⟨k, by simpa [Region.detach_activeReader, hki] using hk, hkj⟩
  · refine Or.inl fun k ↦ ?_
    by_cases hki : k = i
    · simp [Region.detach_activeReader, hki]
    · simpa [Region.detach_activeReader, hki] using hnone k hki

/-- The section of `read_slot`. Assumes: the counter of the reader does not wrap. -/
theorem NobodyLeftBehind.advance {region : Region m} {i : Fin (m + 1)} (h : NobodyLeftBehind region)
    (hbound : region.readSeq i + 1 < 2 ^ 64)
    (hguard : region.activeReader i = true → ∀ j, region.activeReader j = false →
      region.readSeq j = region.readSeq i →
        ∃ k, k ≠ i ∧ region.activeReader k = true ∧ region.readSeq k ≤ region.readSeq i) :
    NobodyLeftBehind (region.advance i) := by
  simp only [NobodyLeftBehind, Region.advance_activeReader, Region.advance_readSeq,
    increment64_of_lt hbound]
  rcases h with hnone | hsome
  · exact Or.inl hnone
  · refine Or.inr fun j hj ↦ ?_
    obtain ⟨k, hk, hkj⟩ := hsome j hj
    by_cases hji : j = i
    · subst hji
      have hkj' : k ≠ j := by
        rintro rfl
        rw [hj] at hk
        cases hk
      refine ⟨k, hk, ?_⟩
      rw [Function.update_self, Function.update_of_ne hkj']
      omega
    · rw [Function.update_of_ne hji]
      by_cases hki : k = i
      · subst hki
        rcases Nat.eq_or_lt_of_le hkj with heq | hlt
        · obtain ⟨l, hl, hactive, hle⟩ := hguard hk j hj heq.symm
          refine ⟨l, hactive, ?_⟩
          rw [Function.update_of_ne hl]
          omega
        · refine ⟨k, hk, ?_⟩
          rw [Function.update_self]
          omega
      · exact ⟨k, hk, by rw [Function.update_of_ne hki]; exact hkj⟩

variable [Fintype τ] [DecidableEq τ]

/-- One step of a run that keeps pace leaves nobody behind. -/
theorem nobodyLeftBehind_step {s t : System m τ} {action : Action m τ} (h : Accounted s)
    (hbound : s.history.written.length < 2 ^ 64) (hinv : NobodyLeftBehind s.region)
    (hempty : AttachesEmpty s action) (hguard : KeepsPace s action)
    (hstep : step s action = some t) : NobodyLeftBehind t.region := by
  cases action with
  | engineInit i =>
    simp only [step, engineInitStep] at hstep
    split at hstep
    case h_1 =>
      split_ifs at hstep
      cases hstep
      exact hinv
    case h_2 hmain =>
      cases hstep
      exact NobodyLeftBehind.attach (hempty hmain)
    case h_3 =>
      cases hstep
      exact hinv
    case h_4 => cases hstep
  | startReceiving i =>
    rw [(startReceiving_frame hstep).2.1]
    exact hinv
  | engineClose i =>
    simp only [step, engineCloseStep] at hstep
    split at hstep
    case h_5 hmain =>
      cases hstep
      exact hinv.detach (hguard hmain)
    all_goals try split_ifs at hstep
    all_goals cases hstep
    all_goals exact hinv
  | receive i =>
    simp only [step, receiveStep] at hstep
    split at hstep
    case h_5 hreader =>
      cases hstep
      have hlt := h.committed i (by rw [hreader]; rfl)
      have hcount := h.count
      exact hinv.advance (by omega) (hguard hreader)
    all_goals try split_ifs at hstep
    all_goals cases hstep
    all_goals exact hinv
  | callWriteSlot w p request =>
    simp only [step, SharedMemory.callWriteSlot] at hstep
    split_ifs at hstep
    cases hstep
    exact hinv
  | writeSlot w =>
    simp only [step, writeSlotStep] at hstep
    split at hstep <;> try split_ifs at hstep
    all_goals cases hstep
    all_goals exact hinv

/-! ### Runs -/

/-- What each step of a run that keeps pace preserves. -/
def PaceKept (s : System m τ) : Prop :=
  InitializedOrUnwritten s ∧
    (s.history.written.length < 2 ^ 64 → Accounted s ∧ NobodyLeftBehind s.region)

theorem paceKept_step (s : System m τ) (action : Action m τ) (t : System m τ) (hinv : PaceKept s)
    (hguard : KeepsPace s action) (hstep : step s action = some t) : PaceKept t := by
  obtain ⟨halternative, hbefore⟩ := hinv
  have hfirst := attachedFirst_of_keepsPace hguard
  have hempty := halternative.attachesEmpty action
  refine ⟨initializedOrUnwritten_step s action t halternative hfirst hstep, fun hlength ↦ ?_⟩
  have hshort := (written_prefix_of_step hstep).length_le.trans_lt hlength
  obtain ⟨h, hnobody⟩ := hbefore hshort
  exact ⟨h.step hempty hstep hlength, nobodyLeftBehind_step h hshort hnobody hempty hguard hstep⟩

theorem paceKept_of_reaches {s : System m τ} (hrun : Reaches step KeepsPace (create m τ) s) :
    PaceKept s :=
  hrun.invariant paceKept_step ⟨initializedOrUnwritten_create,
    fun _ ↦ ⟨accounted_create m τ, Or.inl fun k ↦ by simp [create, Region.activeReader]⟩⟩

omit [DecidableEq τ] in
/-- The permits are accounted for over the active readers exactly when no departed process has
consumed less than all of them. -/
theorem Accounted.permits_active_iff {s : System m τ} (h : Accounted s) {first : ℕ}
    (hfirst : IsLeast (activeReadSeqs s.region) first) :
    s.ringEmpty + permitsHeld s + postsOwed s + (s.region.nextWriteSeq - first) = slotCount ↔
      ∀ i, s.region.activeReader i = false → first ≤ s.region.readSeq i := by
  obtain ⟨⟨k, hk, hread⟩, hlower⟩ := hfirst
  have hpermits := h.permits
  have hbehind := h.behind k
  have hleast : least s.region.readSeq ≤ first := hread ▸ least_le k
  have hall : first ≤ least s.region.readSeq ↔
      ∀ i, s.region.activeReader i = false → first ≤ s.region.readSeq i := by
    rw [le_least_iff]
    constructor
    · intro hbound i _
      exact hbound i
    · intro hbound i
      cases hactive : s.region.activeReader i with
      | true => exact hlower ⟨i, hactive, rfl⟩
      | false => exact hbound i hactive
  rw [← hall]
  constructor <;> intro <;> omega

/-- Departed processes hold no slot of the ring: the permits are accounted for over the active
readers, and are all back when these have consumed every frame. -/
structure DepartedHoldNothing (s : System m τ) : Prop where
  permits : ∀ first, IsLeast (activeReadSeqs s.region) first →
    s.ringEmpty + permitsHeld s + postsOwed s + (s.region.nextWriteSeq - first) = slotCount
  drained : (∃ i, s.region.activeReader i = true) →
    (∀ i, s.region.activeReader i = true → s.region.readSeq i = s.region.nextWriteSeq) →
      s.ringEmpty + permitsHeld s + postsOwed s = slotCount

omit [DecidableEq τ] in
theorem Accounted.departedHoldNothing {s : System m τ} (h : Accounted s)
    (hnobody : NobodyLeftBehind s.region) : DepartedHoldNothing s := by
  have hpermits : ∀ first, IsLeast (activeReadSeqs s.region) first →
      s.ringEmpty + permitsHeld s + postsOwed s + (s.region.nextWriteSeq - first) = slotCount :=
    fun first hfirst ↦ (h.permits_active_iff hfirst).mpr ((nobodyLeftBehind_iff hfirst).mp hnobody)
  refine ⟨hpermits, fun ⟨i, hi⟩ hdrained ↦ ?_⟩
  have hfirst : IsLeast (activeReadSeqs s.region) s.region.nextWriteSeq := by
    refine ⟨⟨i, hi, hdrained i hi⟩, ?_⟩
    rintro seq ⟨j, hj, rfl⟩
    exact (hdrained j hj).ge
  have hall := hpermits _ hfirst
  omega

/-- In every run that keeps pace departed processes hold no slot. In every run in which all
processes attach before the first write, whoever closes when, the permits are accounted for over the
active readers exactly when no departed process has consumed less than all of these. -/
theorem departed_hold_nothing :
    (∀ s : System m τ, Reaches step KeepsPace (create m τ) s →
      s.history.written.length < 2 ^ 64 → DepartedHoldNothing s) ∧
    ∀ (s : System m τ) (first : ℕ), Reaches step AttachedFirst (create m τ) s →
      s.history.written.length < 2 ^ 64 → IsLeast (activeReadSeqs s.region) first →
        (s.ringEmpty + permitsHeld s + postsOwed s + (s.region.nextWriteSeq - first) = slotCount ↔
          ∀ i, s.region.activeReader i = false → first ≤ s.region.readSeq i) := by
  constructor
  · intro s hrun hbound
    obtain ⟨h, hnobody⟩ := (paceKept_of_reaches hrun).2 hbound
    exact h.departedHoldNothing hnobody
  · intro s first hrun hbound hfirst
    have h := accounted_of_reaches (attachesEmpty_of_attachedFirst hrun) hbound
    exact h.permits_active_iff hfirst

/-! ### A departure that costs a slot -/

/-- Both processes attach, the component closes, and the gateway writes a frame and consumes it. -/
def departureActions : List (Action 1 Unit) :=
  List.replicate 3 (Action.engineInit gatewaySlot) ++
  List.replicate 3 (Action.engineInit (Fin.last 1)) ++
  [Action.startReceiving gatewaySlot] ++
  List.replicate 6 (Action.engineClose (Fin.last 1)) ++
  [Action.callWriteSlot () gatewaySlot (threeBytes gatewayWriter deliverToComponents)] ++
  List.replicate 6 (Action.writeSlot ()) ++ List.replicate 6 (Action.receive gatewaySlot)

/-- The permit of the frame does not come back, although the gateway, the only active reader, has
consumed it and nobody holds or owes one. -/
theorem not_departedHoldNothing_departure :
    ∃ s, run step AttachedFirst (create 1 Unit) departureActions = some s ∧
      s.history.written.length = 1 ∧ s.region.activeReader 0 = true ∧
      (∀ i, s.region.activeReader i = true → s.region.readSeq i = s.region.nextWriteSeq) ∧
      s.ringEmpty + permitsHeld s + postsOwed s + 1 = slotCount ∧ ¬ DepartedHoldNothing s := by
  have hcounters : (run step AttachedFirst (create 1 Unit) departureActions).map (fun s ↦
      (s.region.nextWriteSeq, s.region.readSeq 0, s.ringEmpty + permitsHeld s + postsOwed s)) =
      some (1, 1, 99) := by decide +kernel
  have hflags : (run step AttachedFirst (create 1 Unit) departureActions).map (fun s ↦
      (s.history.written.length, s.region.activeReader 0, s.region.activeReader 1)) =
      some (1, true, false) := by decide +kernel
  obtain ⟨s, hs, hvalues⟩ := Option.map_eq_some_iff.mp hcounters
  rw [hs, Option.map_some] at hflags
  simp only [Option.some.injEq, Prod.mk.injEq] at hvalues hflags
  obtain ⟨hnext, hread, hpermits⟩ := hvalues
  obtain ⟨hlength, hgateway, hcomponent⟩ := hflags
  have hdrained : ∀ i, s.region.activeReader i = true →
      s.region.readSeq i = s.region.nextWriteSeq := by
    rw [Fin.forall_fin_two, hread, hnext, hcomponent]
    exact ⟨fun _ ↦ rfl, fun hactive ↦ by cases hactive⟩
  refine ⟨s, hs, hlength, hgateway, hdrained, by rw [hpermits]; rfl, fun hnothing ↦ ?_⟩
  have hback := hnothing.drained ⟨0, hgateway⟩ hdrained
  rw [hpermits] at hback
  cases hback

instance (s : System m τ) (action : Action m τ) : Decidable (KeepsPace s action) :=
  match action with
  | .engineClose i => inferInstanceAs (Decidable (s.mains i = .closeLocked → _ ∨ _))
  | .receive i => inferInstanceAs (Decidable (s.readers i = .locked → _ → ∀ _, _ → _ → _))
  | .callWriteSlot w p request =>
    inferInstanceAs (Decidable (AttachedFirst s (.callWriteSlot w p request)))
  | .engineInit _ | .startReceiving _ | .writeSlot _ => isTrue trivial

/-- The component consumes the frame too, before it closes. -/
def paceActions : List (Action 1 Unit) :=
  List.replicate 3 (Action.engineInit gatewaySlot) ++
  List.replicate 3 (Action.engineInit (Fin.last 1)) ++
  [Action.startReceiving gatewaySlot, Action.startReceiving (Fin.last 1),
    Action.callWriteSlot () gatewaySlot (threeBytes gatewayWriter deliverToComponents)] ++
  List.replicate 6 (Action.writeSlot ()) ++ List.replicate 7 (Action.receive (Fin.last 1)) ++
  List.replicate 7 (Action.receive gatewaySlot) ++
  List.replicate 2 (Action.engineClose (Fin.last 1)) ++ [Action.receive (Fin.last 1)] ++
  List.replicate 4 (Action.engineClose (Fin.last 1))

theorem departed_hold_nothing_pace :
    (∃ s, run step KeepsPace (create 1 Unit) paceActions = some s ∧
      s.history.written.length = 1 ∧ DepartedHoldNothing s) ∧
    ∃ s, run step AttachedFirst (create 1 Unit) departureActions = some s ∧
      IsLeast (activeReadSeqs s.region) 1 ∧ s.region.readSeq 1 = 0 ∧
      s.ringEmpty + permitsHeld s + postsOwed s + (s.region.nextWriteSeq - 1) ≠ slotCount := by
  constructor
  · have hrun : (run step KeepsPace (create 1 Unit) paceActions).map
        (fun s ↦ s.history.written.length) = some 1 := by decide +kernel
    obtain ⟨s, hs, hlength⟩ := Option.map_eq_some_iff.mp hrun
    exact ⟨s, hs, hlength,
      departed_hold_nothing.1 s (reaches_of_run _ hs) (by rw [hlength]; decide)⟩
  · have hcounters : (run step AttachedFirst (create 1 Unit) departureActions).map (fun s ↦
        (s.history.written.length, s.region.readSeq 0, s.region.readSeq 1)) =
        some (1, 1, 0) := by decide +kernel
    have hflags : (run step AttachedFirst (create 1 Unit) departureActions).map (fun s ↦
        (s.region.activeReader 0, s.region.activeReader 1)) = some (true, false) := by
      decide +kernel
    obtain ⟨s, hs, hvalues⟩ := Option.map_eq_some_iff.mp hcounters
    rw [hs, Option.map_some] at hflags
    simp only [Option.some.injEq, Prod.mk.injEq] at hvalues hflags
    obtain ⟨hlength, hread, hdeparted⟩ := hvalues
    obtain ⟨hgateway, hcomponent⟩ := hflags
    have hfirst : IsLeast (activeReadSeqs s.region) 1 := by
      refine ⟨⟨0, hgateway, hread⟩, ?_⟩
      rintro seq ⟨j, hj, rfl⟩
      revert j
      rw [Fin.forall_fin_two, hread, hcomponent]
      exact ⟨fun _ ↦ le_rfl, fun hactive ↦ by cases hactive⟩
    refine ⟨s, hs, hfirst, hdeparted, fun hbalance ↦ ?_⟩
    have hall := (departed_hold_nothing.2 s 1 (reaches_of_run _ hs) (by rw [hlength]; decide)
      hfirst).mp hbalance 1 hcomponent
    omega

end VehicleComm.SharedMemory
