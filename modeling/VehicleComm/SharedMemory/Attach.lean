import VehicleComm.SharedMemory.RingSafety

/-!
# Attaching a reader

`engine_init` moves `read_seq` of the attaching process up to `next_write_seq` and leaves its
pending semaphore alone, while `write_slot` posts the semaphore of every registered process whether
it has attached or not. Before a process attaches, every frame written has left a token on its
semaphore (`TokensPiled`), so its tokens and its counter agree after the section of `engine_init`
exactly when no frame has been written yet (`attach_tokens_iff`), which nothing in the code
enforces. The ring is consistent along every run in which each section of `engine_init` comes before
the first frame, and is not after any other (`attach_consistent`).

In the run that shows it (`not_ringConsistent_lateAttach`) a component writes and reads a frame
before the gateway attaches. The gateway then takes the token of a frame that it has skipped, and
reads a slot that nobody has written.
-/

set_option autoImplicit false
set_option relaxedAutoImplicit false

namespace VehicleComm.SharedMemory

open Library

variable {m : ℕ} {τ : Type*} [Fintype τ]

/-- The process has not run the section of `engine_init`. -/
def MainPhase.unattached : MainPhase → Bool
  | .detached | .initLocked => true
  | _ => false

/-- The receive loop of process `i` has not begun, and every frame written has left a token for
it. -/
structure TokensPiled (s : System m τ) (i : Fin (m + 1)) : Prop where
  notStarted : s.readers i = .notStarted
  unread : s.region.readSeq i = 0
  piled : s.pending i + tally (unposted i) s.writers = s.region.nextWriteSeq

/-! ### What the steps leave alone -/

section Frames

variable {s t : System m τ}

omit [Fintype τ] in
/-- The section of `engine_init` is the only step of it that touches a counter. -/
theorem engineInitStep_unattached {i : Fin (m + 1)} (hstep : engineInitStep s i = some t) :
    t.readers = s.readers ∧ t.pending = s.pending ∧ t.writers = s.writers ∧
      t.region.nextWriteSeq = s.region.nextWriteSeq ∧ t.history = s.history ∧
      ∀ j, (t.mains j).unattached = true →
        (s.mains j).unattached = true ∧ t.region.readSeq j = s.region.readSeq j := by
  unfold engineInitStep at hstep
  split at hstep
  case h_1 hmain =>
    split_ifs at hstep
    obtain rfl := Option.some.inj hstep
    refine ⟨rfl, rfl, rfl, rfl, rfl, fun j hj ↦ ⟨?_, rfl⟩⟩
    by_cases hji : j = i
    · rw [hji, hmain]
      rfl
    · simpa only [Function.update_of_ne hji] using hj
  case h_2 =>
    obtain rfl := Option.some.inj hstep
    refine ⟨rfl, rfl, rfl, rfl, rfl, fun j hj ↦ ?_⟩
    have hji : j ≠ i := by
      rintro rfl
      simp [MainPhase.unattached] at hj
    refine ⟨by simpa only [Function.update_of_ne hji] using hj, ?_⟩
    rw [Region.attach_readSeq, Function.update_of_ne hji]
  case h_3 =>
    obtain rfl := Option.some.inj hstep
    refine ⟨rfl, rfl, rfl, rfl, rfl, fun j hj ↦ ⟨?_, rfl⟩⟩
    have hji : j ≠ i := by
      rintro rfl
      simp [MainPhase.unattached] at hj
    simpa only [Function.update_of_ne hji] using hj
  case h_4 => cases hstep

omit [Fintype τ] in
/-- `engine_close` runs in an attached process and touches no counter of another one. -/
theorem engineCloseStep_unattached {i : Fin (m + 1)} (hstep : engineCloseStep s i = some t) :
    t.readers = s.readers ∧ t.writers = s.writers ∧ t.history = s.history ∧
      t.region.nextWriteSeq = s.region.nextWriteSeq ∧
      ∀ j, (t.mains j).unattached = true →
        (s.mains j).unattached = true ∧ t.pending j = s.pending j ∧
          t.region.readSeq j = s.region.readSeq j := by
  unfold engineCloseStep at hstep
  split at hstep <;> try split_ifs at hstep
  all_goals cases hstep
  all_goals
    refine ⟨rfl, rfl, rfl, by simp, fun j hj ↦ ?_⟩
    have hji : j ≠ i := by
      rintro rfl
      simp [MainPhase.unattached] at hj
    simp only [Function.update_of_ne hji] at hj
    exact ⟨hj, by simp [Function.update_of_ne hji], by simp⟩

omit [Fintype τ] in
/-- The receive loop of process `i` touches no counter and no semaphore of another process. -/
theorem receiveStep_elsewhere {i : Fin (m + 1)} (hstep : receiveStep s i = some t) :
    s.readers i ≠ .notStarted ∧ t.mains = s.mains ∧ t.writers = s.writers ∧
      t.region.nextWriteSeq = s.region.nextWriteSeq ∧ t.history.written = s.history.written ∧
      ∀ j, j ≠ i → t.readers j = s.readers j ∧ t.pending j = s.pending j ∧
        t.region.readSeq j = s.region.readSeq j := by
  unfold receiveStep at hstep
  split at hstep <;> try split_ifs at hstep
  all_goals cases hstep
  all_goals
    refine ⟨by simp [*], rfl, rfl, rfl, rfl, fun j hji ↦ ⟨?_, ?_, ?_⟩⟩
  all_goals simp [Function.update_of_ne hji, Region.advance_readSeq]

end Frames

variable [DecidableEq τ]

/-- A frame is written when a token is due for every registered process. -/
theorem writeSlotStep_tokens {s t : System m τ} {w : τ} (hstep : writeSlotStep s w = some t)
    (hcount : s.region.nextWriteSeq = s.history.written.length)
    (hbound : t.history.written.length < 2 ^ 64) :
    t.readers = s.readers ∧ t.mains = s.mains ∧ t.region.readSeq = s.region.readSeq ∧
      t.region.nextWriteSeq = t.history.written.length ∧
      ∀ i, t.pending i + tally (unposted i) t.writers + s.region.nextWriteSeq =
        s.pending i + tally (unposted i) s.writers + t.region.nextWriteSeq := by
  unfold writeSlotStep at hstep
  split at hstep
  case h_1 => cases hstep
  case h_2 p request hwriter =>
    split_ifs at hstep
    obtain rfl := Option.some.inj hstep
    refine ⟨rfl, rfl, rfl, hcount, fun i ↦ ?_⟩
    rw [tally_update_of_eq (by rw [hwriter]; rfl)]
  case h_3 p request hwriter =>
    split_ifs at hstep
    obtain rfl := Option.some.inj hstep
    refine ⟨rfl, rfl, rfl, hcount, fun i ↦ ?_⟩
    rw [tally_update_of_eq (by rw [hwriter]; rfl)]
  case h_4 p request hwriter =>
    obtain rfl := Option.some.inj hstep
    simp only [List.length_append, List.length_singleton] at hbound
    have hnext : (s.region.publish request).nextWriteSeq = s.region.nextWriteSeq + 1 :=
      increment64_of_lt (by omega)
    refine ⟨rfl, rfl, rfl, ?_, fun i ↦ ?_⟩
    · rw [hnext, hcount, List.length_append, List.length_singleton]
    · have hposts := tally_update (unposted i) s.writers w (.posting 0)
      simp only [hwriter, unposted, Nat.zero_le, if_true] at hposts
      simp only [hnext]
      omega
  case h_5 k hwriter =>
    split_ifs at hstep with hk
    · obtain rfl := Option.some.inj hstep
      refine ⟨rfl, rfl, rfl, hcount, fun i ↦ ?_⟩
      have hposts := tally_update (unposted i) s.writers w (.posting (k + 1))
      simp only [hwriter, unposted] at hposts
      by_cases hi : i = ⟨k, hk⟩
      · subst hi
        simp only [Function.update_self, le_refl, if_true] at hposts ⊢
        rw [if_neg (by omega)] at hposts
        omega
      · have hval : (i : ℕ) ≠ k := fun heq ↦ hi (Fin.ext heq)
        simp only [Function.update_of_ne hi]
        split_ifs at hposts <;> omega
    · obtain rfl := Option.some.inj hstep
      refine ⟨rfl, rfl, rfl, hcount, fun i ↦ ?_⟩
      have hi := i.isLt
      have hposts := tally_update (unposted i) s.writers w .idle
      simp only [hwriter, unposted] at hposts
      rw [if_neg (by omega)] at hposts
      simp only
      omega

/-! ### Tokens before the attach -/

/-- The frames are counted, and every process that has not attached has its tokens piled up. -/
def PiledUnlessAttached (s : System m τ) : Prop :=
  s.region.nextWriteSeq = s.history.written.length ∧
    ∀ i, (s.mains i).unattached = true → TokensPiled s i

/-- Each step of any run piles up the tokens. -/
theorem piledUnlessAttached_step {s t : System m τ} {action : Action m τ}
    (hinv : PiledUnlessAttached s) (hstep : step s action = some t)
    (hbound : t.history.written.length < 2 ^ 64) : PiledUnlessAttached t := by
  obtain ⟨hcount, hpiled⟩ := hinv
  cases action with
  | engineInit i =>
    obtain ⟨hreaders, hpending, hwriters, hnext, hhistory, hothers⟩ :=
      engineInitStep_unattached hstep
    refine ⟨by rw [hnext, hhistory, hcount], fun j hj ↦ ?_⟩
    obtain ⟨hbefore, hread⟩ := hothers j hj
    obtain ⟨hstarted, hunread, htokens⟩ := hpiled j hbefore
    exact ⟨by rw [hreaders, hstarted], by rw [hread, hunread],
      by rw [hpending, hwriters, hnext, htokens]⟩
  | startReceiving i =>
    simp only [step, SharedMemory.startReceiving] at hstep
    split_ifs at hstep with hready
    obtain rfl := Option.some.inj hstep
    refine ⟨hcount, fun j hj ↦ ?_⟩
    have hji : j ≠ i := by
      rintro rfl
      simp [hready.1, MainPhase.unattached] at hj
    obtain ⟨hstarted, hunread, htokens⟩ := hpiled j hj
    exact ⟨by simpa only [Function.update_of_ne hji] using hstarted, hunread, htokens⟩
  | engineClose i =>
    obtain ⟨hreaders, hwriters, hhistory, hnext, hothers⟩ := engineCloseStep_unattached hstep
    refine ⟨by rw [hnext, hhistory, hcount], fun j hj ↦ ?_⟩
    obtain ⟨hbefore, hpending, hread⟩ := hothers j hj
    obtain ⟨hstarted, hunread, htokens⟩ := hpiled j hbefore
    exact ⟨by rw [hreaders, hstarted], by rw [hread, hunread],
      by rw [hpending, hwriters, hnext, htokens]⟩
  | receive i =>
    obtain ⟨hrunning, hmains, hwriters, hnext, hwritten, hothers⟩ := receiveStep_elsewhere hstep
    refine ⟨by rw [hnext, hwritten, hcount], fun j hj ↦ ?_⟩
    obtain ⟨hstarted, hunread, htokens⟩ := hpiled j (hmains ▸ hj)
    have hji : j ≠ i := by
      rintro rfl
      exact hrunning hstarted
    obtain ⟨hreader, hpending, hread⟩ := hothers j hji
    exact ⟨by rw [hreader, hstarted], by rw [hread, hunread],
      by rw [hpending, hwriters, hnext, htokens]⟩
  | callWriteSlot w p request =>
    simp only [step, SharedMemory.callWriteSlot] at hstep
    split_ifs at hstep with hready
    obtain rfl := Option.some.inj hstep
    refine ⟨hcount, fun j hj ↦ ?_⟩
    obtain ⟨hstarted, hunread, htokens⟩ := hpiled j hj
    refine ⟨hstarted, hunread, ?_⟩
    rw [tally_update_of_eq (by rw [hready.1]; rfl)]
    exact htokens
  | writeSlot w =>
    obtain ⟨hreaders, hmains, hread, hlength, htokens⟩ :=
      writeSlotStep_tokens hstep hcount hbound
    refine ⟨hlength, fun j hj ↦ ?_⟩
    obtain ⟨hstarted, hunread, hpile⟩ := hpiled j (hmains ▸ hj)
    have hown := htokens j
    exact ⟨by rw [hreaders, hstarted], by rw [hread, hunread], by omega⟩

/-- In every run, whoever attaches when. -/
theorem piledUnlessAttached_of_reaches {s : System m τ}
    (hrun : Reaches step Unguarded (create m τ) s) (hbound : s.history.written.length < 2 ^ 64) :
    PiledUnlessAttached s := by
  refine Reaches.invariant
    (P := fun s ↦ s.history.written.length < 2 ^ 64 → PiledUnlessAttached s)
    (fun s action t hinv _ hstep hlength ↦ ?_) hrun (fun _ ↦ ⟨rfl, fun i _ ↦ ?_⟩) hbound
  · have hbefore := (written_prefix_of_step hstep).length_le.trans_lt hlength
    exact piledUnlessAttached_step (hinv hbefore) hstep hlength
  · exact ⟨rfl, rfl, by simp [create, tally, unposted]⟩

/-- The section of `engine_init` leaves the attaching process with a token for every frame written
so far, none of which it will read: its tokens and its counter make up twice `next_write_seq`. -/
theorem attach_tokens {s t : System m τ} {i : Fin (m + 1)}
    (hrun : Reaches step Unguarded (create m τ) s) (hbound : s.history.written.length < 2 ^ 64)
    (hmain : s.mains i = .initLocked) (hstep : step s (.engineInit i) = some t) :
    tokensOf t i = s.region.nextWriteSeq ∧ t.region.readSeq i = s.region.nextWriteSeq ∧
      t.region.nextWriteSeq = s.region.nextWriteSeq := by
  obtain ⟨hstarted, -, hpile⟩ :=
    (piledUnlessAttached_of_reaches hrun hbound).2 i (by rw [hmain]; rfl)
  simp only [step, engineInitStep, hmain, Option.some.injEq] at hstep
  subst hstep
  refine ⟨?_, ?_, rfl⟩
  · simp only [tokensOf, hstarted, readerToken]
    omega
  · rw [Region.attach_readSeq, Function.update_self]

/-- The tokens of a process agree with its counter after the section of `engine_init` exactly when
no frame was written before. -/
theorem attach_tokens_iff {s t : System m τ} {i : Fin (m + 1)}
    (hrun : Reaches step Unguarded (create m τ) s) (hbound : s.history.written.length < 2 ^ 64)
    (hmain : s.mains i = .initLocked) (hstep : step s (.engineInit i) = some t) :
    tokensOf t i + t.region.readSeq i = t.region.nextWriteSeq ↔ s.region.nextWriteSeq = 0 := by
  obtain ⟨htokens, hread, hnext⟩ := attach_tokens hrun hbound hmain hstep
  rw [htokens, hread, hnext]
  omega

/-! ### Runs in which everybody attaches to an empty ring -/

omit [DecidableEq τ] in
/-- While a main thread holds the mutex no writer owes a token. -/
theorem Accounted.unposted_eq_zero {s : System m τ} (h : Accounted s) {j : Fin (m + 1)}
    (hmain : mainHolds (s.mains j) = 1) (i : Fin (m + 1)) : tally (unposted i) s.writers = 0 := by
  have hmutex := h.mutex
  have hheld : mainHolds (s.mains j) ≤ tally mainHolds s.mains := cost_le_tally j
  simp only [mutexHolders] at hmutex
  have hwriters : tally writerHolds s.writers = 0 := by omega
  rw [tally_eq_zero_iff] at hwriters ⊢
  intro w
  have hw := hwriters w
  cases hwriter : s.writers w with
  | posting k =>
    rw [hwriter] at hw
    cases hw
  | _ => rfl

/-- Attaching a reader keeps the ring consistent when nothing has been written, and only then. In
every state of a run in which each section of `engine_init` comes before the first frame, the ring
is consistent with its readers, and when the section of some process has just ended, the pending
semaphore of a process with the tokens it has taken is what it has not read. In any run at all, the
section of `engine_init` leaves the tokens and the counter of its process in agreement exactly when
no frame has been written. -/
theorem attach_consistent :
    (∀ s : System m τ, Reaches step AttachesEmpty (create m τ) s →
      s.history.written.length < 2 ^ 64 →
        RingConsistent s ∧ ∀ i j, s.mains j = .initUnlock → (s.mains i).closing = false →
          s.pending i + readerToken (s.readers i) = s.region.nextWriteSeq - s.region.readSeq i) ∧
    ∀ (s t : System m τ) (i : Fin (m + 1)), Reaches step Unguarded (create m τ) s →
      s.history.written.length < 2 ^ 64 → s.mains i = .initLocked →
        step s (.engineInit i) = some t →
          (tokensOf t i + t.region.readSeq i = t.region.nextWriteSeq ↔
            s.region.nextWriteSeq = 0) := by
  refine ⟨fun s hrun hbound ↦ ?_, fun s t i hrun hbound hmain hstep ↦
    attach_tokens_iff hrun hbound hmain hstep⟩
  have h := accounted_of_reaches hrun hbound
  refine ⟨h.ringConsistent, fun i j hmain hopen ↦ ?_⟩
  have htokens := h.tokens i hopen
  have hposts := h.unposted_eq_zero (j := j) (by rw [hmain]; rfl) i
  simp only [tokensOf] at htokens
  omega

/-- A component attaches, writes a frame and consumes it; the gateway attaches after that and takes
the token of the frame. -/
def lateAttachActions : List (Action 1 Unit) :=
  [Action.engineInit (Fin.last 1), Action.engineInit (Fin.last 1), Action.engineInit (Fin.last 1),
    Action.startReceiving (Fin.last 1),
    Action.callWriteSlot () (Fin.last 1)
      (threeBytes 1 (deliverToComponents ||| deliverToGateway))] ++
  List.replicate 6 (Action.writeSlot ()) ++ List.replicate 6 (Action.receive (Fin.last 1)) ++
  List.replicate 3 (Action.engineInit gatewaySlot) ++ [Action.startReceiving gatewaySlot] ++
  List.replicate 6 (Action.receive gatewaySlot)

/-- The late gateway consumes a slot that was never written and stands one frame ahead of the
writers; the permit of the frame that both have passed is lost. -/
theorem not_ringConsistent_lateAttach :
    ∃ s, run step Unguarded (create 1 Unit) lateAttachActions = some s ∧
      s.history.written.length = 1 ∧ ¬ RingConsistent s ∧
      s.region.nextWriteSeq < s.region.readSeq 0 ∧ s.history.written[1]? = none ∧
      (1, ⟨0, 0, 0, []⟩) ∈ s.history.consumed 0 ∧
      (∀ i, s.region.nextWriteSeq ≤ s.region.readSeq i) ∧
      s.ringEmpty + permitsHeld s + postsOwed s + 1 = slotCount := by
  have hcounters : (run step Unguarded (create 1 Unit) lateAttachActions).map (fun s ↦
      (s.region.nextWriteSeq, s.region.readSeq 0, s.region.readSeq 1,
        s.ringEmpty + permitsHeld s + postsOwed s)) = some (1, 2, 1, 99) := by decide +kernel
  have hrecord : (run step Unguarded (create 1 Unit) lateAttachActions).map (fun s ↦
      (s.history.written.length, s.history.consumed 0)) =
      some (1, [(1, ⟨0, 0, 0, []⟩)]) := by decide +kernel
  obtain ⟨s, hs, hvalues⟩ := Option.map_eq_some_iff.mp hcounters
  rw [hs, Option.map_some] at hrecord
  simp only [Option.some.injEq, Prod.mk.injEq] at hvalues hrecord
  obtain ⟨hnext, hgateway, hcomponent, hpermits⟩ := hvalues
  obtain ⟨hlength, hseen⟩ := hrecord
  refine ⟨s, hs, hlength, fun hring ↦ ?_, by omega, ?_,
    by rw [hseen]; exact List.mem_singleton_self _,
    ?_, by rw [hpermits]; rfl⟩
  · have hahead := hring.notAhead 0
    omega
  · rw [List.getElem?_eq_none_iff, hlength]
  · rw [Fin.forall_fin_two]
    omega

/-- Both processes attach to the empty ring, the component writes a frame and the gateway consumes
it. -/
def earlyAttachActions : List (Action 1 Unit) :=
  [Action.engineInit gatewaySlot, Action.engineInit gatewaySlot, Action.engineInit gatewaySlot,
    Action.startReceiving gatewaySlot,
    Action.engineInit (Fin.last 1), Action.engineInit (Fin.last 1), Action.engineInit (Fin.last 1),
    Action.startReceiving (Fin.last 1),
    Action.callWriteSlot () (Fin.last 1)
      (threeBytes 1 (deliverToComponents ||| deliverToGateway))] ++
  List.replicate 6 (Action.writeSlot ()) ++ List.replicate 6 (Action.receive gatewaySlot)

theorem attach_consistent_earlyAttach :
    (∃ s, run step AttachesEmpty (create 1 Unit) earlyAttachActions = some s ∧
      s.history.written.length = 1 ∧ RingConsistent s) ∧
    ∃ s t, run step Unguarded (create 1 Unit) (lateAttachActions.take 18) = some s ∧
      step s (.engineInit gatewaySlot) = some t ∧ s.region.nextWriteSeq = 1 ∧
      tokensOf t 0 + t.region.readSeq 0 ≠ t.region.nextWriteSeq := by
  constructor
  · have hrun : (run step AttachesEmpty (create 1 Unit) earlyAttachActions).map
        (fun s ↦ s.history.written.length) = some 1 := by decide +kernel
    obtain ⟨s, hs, hlength⟩ := Option.map_eq_some_iff.mp hrun
    exact ⟨s, hs, hlength,
      (attach_consistent.1 s (reaches_of_run _ hs) (by rw [hlength]; decide)).1⟩
  · have hrun : (run step Unguarded (create 1 Unit) (lateAttachActions.take 18)).map
        (fun s ↦ (s.history.written.length, s.region.nextWriteSeq, s.mains gatewaySlot)) =
        some (1, 1, .initLocked) := by decide +kernel
    obtain ⟨s, hs, hvalues⟩ := Option.map_eq_some_iff.mp hrun
    simp only [Prod.mk.injEq] at hvalues
    obtain ⟨hlength, hnext, hmain⟩ := hvalues
    obtain ⟨t, hstep⟩ : ∃ t, step s (.engineInit gatewaySlot) = some t := by
      simp [step, engineInitStep, hmain]
    refine ⟨s, t, hs, hstep, hnext, fun hagree ↦ ?_⟩
    have hzero := (attach_consistent.2 s t 0 (reaches_of_run _ hs) (by rw [hlength]; decide) hmain
      hstep).mp hagree
    omega

end VehicleComm.SharedMemory
