import VehicleComm.SharedMemory.Accounting

/-!
# Safety of the ring

Runs in which every registered process attaches before the first call of `write_slot`
(`AttachedFirst`), and those of them in which none closes (`Steady`). In such a run nobody attaches
late (`attachesEmpty_of_attachedFirst`), so the accounts of the ring balance. From them: permits,
posts and occupied slots add up to `SLOT_COUNT`, a slot is overwritten only after every reader
consumed it, and every reader consumes the sequence numbers in order and sees what the writes asked
to publish (`ring_safety`). That at most one thread is between the two operations on the mutex,
which is what makes the code between them one step, is `mutual_exclusion`.

The number of components and the set of writing threads are any, and the sequence numbers stay below
`2 ^ 64`. That all attach first is not something the code sees to: `Vehicle::run_gateway_process`
forks the components before the gateway attaches, and what a late attach does is in
`SharedMemory.Attach`.
-/

set_option autoImplicit false
set_option relaxedAutoImplicit false

namespace VehicleComm.SharedMemory

open Library

variable {m : ℕ} {τ : Type*} [DecidableEq τ]

/-! ### Runs in which everybody attaches before the first write -/

/-- `engine_init` has returned. -/
def MainPhase.initialized : MainPhase → Bool
  | .detached | .initLocked | .initUnlock => false
  | _ => true

/-- Guard of a run in which `write_slot` is called only when `engine_init` of every process has
returned. Processes may close. -/
def AttachedFirst (s : System m τ) : Action m τ → Prop
  | .callWriteSlot .. => ∀ i, (s.mains i).initialized = true
  | _ => True

/-- Guard of a run in which `write_slot` is called only when every process has attached, and no
process closes. -/
def Steady (s : System m τ) : Action m τ → Prop
  | .engineClose _ => False
  | .callWriteSlot .. => ∀ i, s.mains i = .attached
  | _ => True

instance (s : System m τ) (action : Action m τ) : Decidable (AttachedFirst s action) :=
  match action with
  | .callWriteSlot .. => inferInstanceAs (Decidable (∀ i, (s.mains i).initialized = true))
  | .engineInit _ | .startReceiving _ | .engineClose _ | .receive _ | .writeSlot _ => isTrue trivial

instance (s : System m τ) (action : Action m τ) : Decidable (Steady s action) :=
  match action with
  | .engineClose _ => isFalse id
  | .callWriteSlot .. => inferInstanceAs (Decidable (∀ i, s.mains i = .attached))
  | .engineInit _ | .startReceiving _ | .receive _ | .writeSlot _ => isTrue trivial

/-- Either every process is past `engine_init`, or nobody has begun to write. -/
def InitializedOrUnwritten (s : System m τ) : Prop :=
  (∀ i, (s.mains i).initialized = true) ∨ (s.region.nextWriteSeq = 0 ∧ ∀ w, s.writers w = .idle)

omit [DecidableEq τ] in
theorem engineInitStep_frame {s t : System m τ} {i : Fin (m + 1)}
    (hstep : engineInitStep s i = some t) :
    (s.mains i).initialized = false ∧ t.region.nextWriteSeq = s.region.nextWriteSeq ∧
      t.writers = s.writers := by
  unfold engineInitStep at hstep
  split at hstep <;> try split_ifs at hstep
  all_goals cases hstep
  all_goals exact ⟨by simp [*, MainPhase.initialized], rfl, rfl⟩

omit [DecidableEq τ] in
theorem engineCloseStep_frame {s t : System m τ} {i : Fin (m + 1)}
    (hstep : engineCloseStep s i = some t) :
    (∀ j, (s.mains j).initialized = true → (t.mains j).initialized = true) ∧
      t.region.nextWriteSeq = s.region.nextWriteSeq ∧ t.writers = s.writers := by
  unfold engineCloseStep at hstep
  split at hstep <;> try split_ifs at hstep
  all_goals cases hstep
  all_goals
    refine ⟨fun j hj ↦ ?_, by simp, rfl⟩
    by_cases hji : j = i
    · subst hji
      simp [MainPhase.initialized]
    · simpa only [Function.update_of_ne hji] using hj

omit [DecidableEq τ] in
theorem receiveStep_frame {s t : System m τ} {i : Fin (m + 1)} (hstep : receiveStep s i = some t) :
    t.mains = s.mains ∧ t.region.nextWriteSeq = s.region.nextWriteSeq ∧ t.writers = s.writers := by
  unfold receiveStep at hstep
  split at hstep <;> try split_ifs at hstep
  all_goals cases hstep
  all_goals exact ⟨rfl, rfl, rfl⟩

omit [DecidableEq τ] in
theorem startReceiving_frame {s t : System m τ} {i : Fin (m + 1)}
    (hstep : startReceiving s i = some t) :
    t.mains = s.mains ∧ t.region = s.region ∧ t.writers = s.writers := by
  unfold startReceiving at hstep
  split_ifs at hstep
  cases hstep
  exact ⟨rfl, rfl, rfl⟩

theorem writeSlotStep_frame {s t : System m τ} {w : τ} (hstep : writeSlotStep s w = some t) :
    s.writers w ≠ .idle ∧ t.mains = s.mains := by
  unfold writeSlotStep at hstep
  split at hstep <;> try split_ifs at hstep
  all_goals cases hstep
  all_goals exact ⟨by simp [*], rfl⟩

/-- Each step of a run in which everybody attaches before the first write keeps the alternative. -/
theorem initializedOrUnwritten_step (s : System m τ) (action : Action m τ) (t : System m τ)
    (hinv : InitializedOrUnwritten s) (hguard : AttachedFirst s action)
    (hstep : step s action = some t) : InitializedOrUnwritten t := by
  cases action with
  | engineInit i =>
    obtain ⟨hmain, hnext, hwriters⟩ := engineInitStep_frame hstep
    rcases hinv with hinit | ⟨hzero, hidle⟩
    · rw [hinit i] at hmain
      cases hmain
    · exact Or.inr ⟨hnext.trans hzero, by rw [hwriters]; exact hidle⟩
  | startReceiving i =>
    obtain ⟨hmains, hregion, hwriters⟩ := startReceiving_frame hstep
    rw [InitializedOrUnwritten, hmains, hregion, hwriters]
    exact hinv
  | engineClose i =>
    obtain ⟨hmains, hnext, hwriters⟩ := engineCloseStep_frame hstep
    rcases hinv with hinit | ⟨hzero, hidle⟩
    · exact Or.inl fun j ↦ hmains j (hinit j)
    · exact Or.inr ⟨hnext.trans hzero, by rw [hwriters]; exact hidle⟩
  | receive i =>
    obtain ⟨hmains, hnext, hwriters⟩ := receiveStep_frame hstep
    rw [InitializedOrUnwritten, hmains, hnext, hwriters]
    exact hinv
  | callWriteSlot w p request =>
    simp only [step, callWriteSlot] at hstep
    split_ifs at hstep
    obtain rfl := Option.some.inj hstep
    exact Or.inl hguard
  | writeSlot w =>
    obtain ⟨hbusy, hmains⟩ := writeSlotStep_frame hstep
    rcases hinv with hinit | ⟨-, hidle⟩
    · exact Or.inl (by rw [hmains]; exact hinit)
    · exact absurd (hidle w) hbusy

omit [DecidableEq τ] in
/-- Under the alternative nobody attaches after the first frame. -/
theorem InitializedOrUnwritten.attachesEmpty {s : System m τ} (h : InitializedOrUnwritten s)
    (action : Action m τ) : AttachesEmpty s action := by
  cases action with
  | engineInit i =>
    intro hmain
    rcases h with hinit | ⟨hzero, -⟩
    · have hphase := hinit i
      rw [hmain] at hphase
      cases hphase
    · exact hzero
  | _ => trivial

omit [DecidableEq τ] in
theorem initializedOrUnwritten_create : InitializedOrUnwritten (create m τ) :=
  Or.inr ⟨rfl, fun _ ↦ rfl⟩

/-- When everybody attaches before the first write, nobody attaches after the first frame. -/
theorem attachesEmpty_of_attachedFirst {s : System m τ}
    (hrun : Reaches step AttachedFirst (create m τ) s) :
    Reaches step AttachesEmpty (create m τ) s :=
  hrun.strengthen initializedOrUnwritten_step (fun _ action hinv _ ↦ hinv.attachesEmpty action)
    initializedOrUnwritten_create

theorem attachedFirst_of_steady {s : System m τ} (hrun : Reaches step Steady (create m τ) s) :
    Reaches step AttachedFirst (create m τ) s := by
  refine hrun.mono fun s action hguard ↦ ?_
  cases action with
  | callWriteSlot w p request =>
    intro i
    rw [hguard i]
    rfl
  | _ => trivial

/-! ### The ring along these runs -/

variable [Fintype τ]

theorem Steady.accounted {s : System m τ} (hrun : Reaches step Steady (create m τ) s)
    (hbound : s.history.written.length < 2 ^ 64) : Accounted s :=
  accounted_of_reaches (attachesEmpty_of_attachedFirst (attachedFirst_of_steady hrun)) hbound

/-- At most one thread is between a wait and the matching post on the ring mutex, and the mutex is
closed while one is. -/
theorem mutual_exclusion {s : System m τ} (hrun : Reaches step AttachesEmpty (create m τ) s)
    (hbound : s.history.written.length < 2 ^ 64) :
    mutexHolders s ≤ 1 ∧ (mutexHolders s = 1 ↔ s.ringMutex = 0) := by
  have hmutex := (accounted_of_reaches hrun hbound).mutex
  constructor <;> omega

omit [DecidableEq τ] in
/-- A writer about to fill a slot overwrites only a frame that every reader has consumed. -/
theorem Accounted.overwrite {s : System m τ} (h : Accounted s) {w : τ} {p : Fin (m + 1)}
    {request : WriteRequest} (hwriter : s.writers w = .fill p request) (i : Fin (m + 1)) {seq : ℕ}
    (hold : seq < s.region.nextWriteSeq) (hslot : slotIndex seq = slotIndex s.region.nextWriteSeq) :
    seq < s.region.readSeq i := by
  have hroom := h.room_of_permit (w := w) (by rw [hwriter]; rfl) i
  by_contra hunread
  exact slotIndex_ne hold (by omega) hslot

theorem numbered_fst (written : List (Fin (m + 1) × SlotRecord)) :
    (numbered written).map Prod.fst = List.range written.length := by
  rw [numbered]
  exact List.ext_getElem (by simp) (by simp)

theorem mem_numbered_iff {written : List (Fin (m + 1) × SlotRecord)} {seq : ℕ}
    {record : SlotRecord} :
    (seq, record) ∈ numbered written ↔ ∃ p, written[seq]? = some (p, record) := by
  simp only [numbered, List.mem_iff_getElem?, List.getElem?_mapIdx, Option.map_eq_some_iff,
    Prod.mk.injEq, Prod.exists]
  constructor
  · rintro ⟨i, p, record', hget, rfl, rfl⟩
    exact ⟨p, hget⟩
  · rintro ⟨p, hget⟩
    exact ⟨seq, p, record, hget, rfl, rfl⟩

/-- What the accounts say of the counters and of the reads: the tokens of a reader that is not
closing are the frames it has not consumed, the permits that are not free are accounted for, and the
readers consumed the frames in order, each with the content of its write. -/
structure RingConsistent (s : System m τ) : Prop where
  tokens : ∀ i, (s.mains i).closing = false →
    tokensOf s i + s.region.readSeq i = s.region.nextWriteSeq
  permits : s.ringEmpty + permitsHeld s + postsOwed s +
    (s.region.nextWriteSeq - least s.region.readSeq) = slotCount
  notAhead : ∀ i, s.region.readSeq i ≤ s.region.nextWriteSeq
  notFarBehind : ∀ i, s.region.nextWriteSeq - s.region.readSeq i ≤ slotCount
  inOrder : ∀ i, (s.history.consumed i).map Prod.fst = List.range (s.region.readSeq i)
  seen : ∀ i seq record, (seq, record) ∈ s.history.consumed i →
    ∃ p, s.history.written[seq]? = some (p, record)

omit [DecidableEq τ] in
theorem Accounted.ringConsistent {s : System m τ} (h : Accounted s) : RingConsistent s where
  tokens := h.tokens
  permits := by
    have hpermits := h.permits
    have hleast : least s.region.readSeq ≤ s.region.nextWriteSeq := (least_le 0).trans (h.behind 0)
    omega
  notAhead := h.behind
  notFarBehind := by
    intro i
    have hoccupied := h.occupied_le i
    omega
  inOrder := by
    intro i
    have hlength : s.region.readSeq i ≤ s.history.written.length := h.count ▸ h.behind i
    rw [h.consumed, numbered_fst, List.length_take, min_eq_left hlength]
  seen := by
    intro i seq record hseen
    rw [h.consumed, mem_numbered_iff] at hseen
    obtain ⟨p, hget⟩ := hseen
    rw [List.getElem?_take] at hget
    split_ifs at hget
    exact ⟨p, hget⟩

/-- Safety of the ring. In every state of a run in which all registered processes attach before the
first write, none closes and fewer than `2 ^ 64` frames are written:
the free permits, the permits of writers that have not advanced `next_write_seq`, the posts decided
but not made and the occupied slots add up to `SLOT_COUNT`; no reader is ahead of the writers or
more than `SLOT_COUNT` frames behind; a slot about to be filled holds a frame that every reader has
consumed; and every reader has consumed the sequence numbers from zero on, each once and in order,
seeing for each what the write of that number published. -/
theorem ring_safety {s : System m τ} (hrun : Reaches step Steady (create m τ) s)
    (hbound : s.history.written.length < 2 ^ 64) :
    s.ringEmpty + permitsHeld s + postsOwed s +
        (s.region.nextWriteSeq - least s.region.readSeq) = slotCount ∧
      (∀ i, s.region.readSeq i ≤ s.region.nextWriteSeq ∧
        s.region.nextWriteSeq - s.region.readSeq i ≤ slotCount) ∧
      (∀ w p request, s.writers w = .fill p request → ∀ seq < s.region.nextWriteSeq,
        slotIndex seq = slotIndex s.region.nextWriteSeq → ∀ i, seq < s.region.readSeq i) ∧
      ∀ i, (s.history.consumed i).map Prod.fst = List.range (s.region.readSeq i) ∧
        ∀ seq record, (seq, record) ∈ s.history.consumed i →
          ∃ p, s.history.written[seq]? = some (p, record) := by
  have h := Steady.accounted hrun hbound
  have hring := h.ringConsistent
  refine ⟨hring.permits, fun i ↦ ⟨hring.notAhead i, hring.notFarBehind i⟩, ?_,
    fun i ↦ ⟨hring.inOrder i, hring.seen i⟩⟩
  intro w p request hwriter seq hold hslot i
  exact h.overwrite hwriter i hold hslot

/-- A component and the gateway attach, the component writes one frame and both readers consume
it. -/
def steadyActions : List (Action 1 Unit) :=
  List.replicate 3 (Action.engineInit gatewaySlot) ++
  List.replicate 3 (Action.engineInit (Fin.last 1)) ++
  [Action.startReceiving gatewaySlot, Action.startReceiving (Fin.last 1),
    Action.callWriteSlot () (Fin.last 1)
      (threeBytes 1 (deliverToComponents ||| deliverToGateway))] ++
  List.replicate 6 (Action.writeSlot ()) ++ List.replicate 7 (Action.receive gatewaySlot) ++
  List.replicate 7 (Action.receive (Fin.last 1))

theorem ring_safety_steadyActions :
    ∃ s, run step Steady (create 1 Unit) steadyActions = some s ∧
      s.history.written.length = 1 ∧
      s.ringEmpty + permitsHeld s + postsOwed s +
        (s.region.nextWriteSeq - least s.region.readSeq) = slotCount ∧
      (s.history.consumed 0).map Prod.fst = List.range (s.region.readSeq 0) := by
  have hrun : (run step Steady (create 1 Unit) steadyActions).map
      (fun s ↦ s.history.written.length) = some 1 := by decide +kernel
  obtain ⟨s, hs, hlength⟩ := Option.map_eq_some_iff.mp hrun
  obtain ⟨hpermits, -, -, hconsumed⟩ :=
    ring_safety (reaches_of_run steadyActions hs) (by rw [hlength]; decide)
  exact ⟨s, hs, hlength, hpermits, (hconsumed 0).1⟩

end VehicleComm.SharedMemory
