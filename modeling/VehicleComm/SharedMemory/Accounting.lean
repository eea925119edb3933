import VehicleComm.Library.GuardedRun
import VehicleComm.Library.ThreadFamily
import VehicleComm.SharedMemory.Engine

/-!
# The accounts of the ring

Every permit of `SEM_RING_EMPTY` and every token of a pending semaphore is somewhere. `Accounted`
says where: the mutex is open or held by one thread, the free permits, the permits of writers that
have not advanced `next_write_seq`, the posts that readers owe and the occupied slots make up
`SLOT_COUNT`, and the tokens of a reader, posted, taken or still to be posted, are the frames it has
not consumed. The history part says that the ring still holds every frame that may be read, and that
every reader saw the frames in order.

A step that moves threads and semaphores only keeps the accounts when it moves equal amounts
(`Accounted.of_moved`); the two steps that change the counters are `Accounted.fill` and
`Accounted.consume`. The one demand on a run is that nobody attaches after the first frame
(`AttachesEmpty`), and `accounted_of_reaches` is the invariant of such runs.
-/

set_option autoImplicit false
set_option relaxedAutoImplicit false

namespace VehicleComm.SharedMemory

open Library

/-! ### What a program point holds -/

/-- The writer is between the two mutex operations of `write_slot`. -/
def writerHolds {m : ℕ} : WriterPhase m → ℕ
  | .fill .. | .posting _ => 1
  | _ => 0

/-- The writer took a permit and has not advanced `next_write_seq`. -/
def writerPermit {m : ℕ} : WriterPhase m → ℕ
  | .waitMutex .. | .fill .. => 1
  | _ => 0

/-- The writer advanced `next_write_seq` and has not posted the pending semaphore of `i`. -/
def unposted {m : ℕ} (i : Fin (m + 1)) : WriterPhase m → ℕ
  | .posting j => if j ≤ i then 1 else 0
  | _ => 0

/-- The reader is between the two mutex operations of `read_slot`. -/
def readerHolds : ReaderPhase → ℕ
  | .locked | .unlock .. => 1
  | _ => 0

/-- The reader decided to post `SEM_RING_EMPTY` and has not posted it. -/
def readerOwes : ReaderPhase → ℕ
  | .unlock true _ | .postEmpty _ => 1
  | _ => 0

/-- The reader took a token and has not advanced its `read_seq`. -/
def readerToken : ReaderPhase → ℕ
  | .testRunning | .waitMutex | .locked => 1
  | _ => 0

/-- The reader will advance its `read_seq` before it tests `_running_receiver` again. -/
def readerCommitted : ReaderPhase → Bool
  | .waitMutex | .locked => true
  | _ => false

/-- The main thread is between the two mutex operations of `engine_init` or of `engine_close`. -/
def mainHolds : MainPhase → ℕ
  | .initLocked | .initUnlock | .closeLocked | .closeUnlock => 1
  | _ => 0

/-- `engine_close` has begun. -/
def MainPhase.closing : MainPhase → Bool
  | .closePost | .closeJoin | .closeWait | .closeLocked | .closeUnlock | .closed => true
  | _ => false

variable {m : ℕ} {τ : Type*} [Fintype τ]

/-- Threads between a wait and the matching post on the mutex. -/
def mutexHolders (s : System m τ) : ℕ :=
  tally writerHolds s.writers + tally readerHolds s.readers + tally mainHolds s.mains

/-- Permits taken by writers that have not yet advanced `next_write_seq`. -/
def permitsHeld (s : System m τ) : ℕ := tally writerPermit s.writers

/-- Posts of `SEM_RING_EMPTY` decided but not yet made by readers. -/
def postsOwed (s : System m τ) : ℕ := tally readerOwes s.readers

/-- Tokens of reader `i`: in its semaphore, taken, or about to be posted by a writer. -/
def tokensOf (s : System m τ) (i : Fin (m + 1)) : ℕ :=
  s.pending i + readerToken (s.readers i) + tally (unposted i) s.writers

/-- What reader `i` has seen when it has consumed the first writes of the list. -/
def numbered (written : List (Fin (m + 1) × SlotRecord)) : List (ℕ × SlotRecord) :=
  written.mapIdx fun seq write ↦ (seq, write.2)

structure Accounted (s : System m τ) : Prop where
  mutex : s.ringMutex + mutexHolders s = 1
  permits : s.ringEmpty + permitsHeld s + postsOwed s + s.region.nextWriteSeq =
    slotCount + least s.region.readSeq
  tokens : ∀ i, (s.mains i).closing = false →
    tokensOf s i + s.region.readSeq i = s.region.nextWriteSeq
  committed : ∀ i, readerCommitted (s.readers i) = true → s.region.readSeq i < s.region.nextWriteSeq
  behind : ∀ i, s.region.readSeq i ≤ s.region.nextWriteSeq
  silenced : ∀ i, (s.mains i).closing = true → s.running i = false
  live : ∀ i, s.readers i ≠ .notStarted → (s.mains i).closing = false → s.running i = true
  count : s.region.nextWriteSeq = s.history.written.length
  content : ∀ seq write, s.history.written[seq]? = some write →
    s.history.written.length ≤ seq + slotCount →
      (s.region.slots (slotIndex seq)).record = write.2
  consumed : ∀ i,
    s.history.consumed i = numbered (s.history.written.take (s.region.readSeq i))

/-- The region that `create` leaves is accounted. -/
theorem accounted_create (m : ℕ) (τ : Type*) [Fintype τ] : Accounted (create m τ) where
  mutex := by simp [create, mutexHolders, tally, writerHolds, readerHolds, mainHolds]
  permits := by
    have hleast : least (create m τ).region.readSeq = 0 :=
      least_eq (i := 0) (fun _ ↦ Nat.zero_le _) rfl
    rw [hleast]
    simp [create, permitsHeld, postsOwed, tally, writerPermit, readerOwes]
  tokens := by simp [create, tokensOf, tally, readerToken, unposted, Region.readSeq]
  committed := by simp [create, readerCommitted]
  behind := by simp [create, Region.readSeq]
  silenced := by simp [create]
  live := by simp [create]
  count := rfl
  content := by simp [create]
  consumed := by simp [create, numbered]

/-- The counters and the slots of the ring and the record of writes and reads are the same. -/
structure SameRing (s t : System m τ) : Prop where
  nextWriteSeq : t.region.nextWriteSeq = s.region.nextWriteSeq
  readSeq : t.region.readSeq = s.region.readSeq
  slots : t.region.slots = s.region.slots
  written : t.history.written = s.history.written
  consumed : t.history.consumed = s.history.consumed

/-- A step that leaves the ring alone keeps the accounts, when it keeps the number of mutex holders,
of permits and of tokens. -/
theorem Accounted.of_moved {s t : System m τ} (h : Accounted s) (hring : SameRing s t)
    (hmutex : t.ringMutex + mutexHolders t = s.ringMutex + mutexHolders s)
    (hpermits : t.ringEmpty + permitsHeld t + postsOwed t =
      s.ringEmpty + permitsHeld s + postsOwed s)
    (htokens : ∀ i, (t.mains i).closing = false →
      (s.mains i).closing = false ∧ tokensOf t i = tokensOf s i)
    (hcommitted : ∀ i, readerCommitted (t.readers i) = true →
      s.region.readSeq i < s.region.nextWriteSeq)
    (hsilenced : ∀ i, (t.mains i).closing = true → t.running i = false)
    (hlive : ∀ i, t.readers i ≠ .notStarted → (t.mains i).closing = false → t.running i = true) :
    Accounted t where
  mutex := hmutex ▸ h.mutex
  permits := by rw [hpermits, hring.nextWriteSeq, hring.readSeq, h.permits]
  tokens := by
    intro i hi
    obtain ⟨hopen, heq⟩ := htokens i hi
    rw [heq, hring.nextWriteSeq, hring.readSeq, h.tokens i hopen]
  committed := by rw [hring.nextWriteSeq, hring.readSeq]; exact hcommitted
  behind := by rw [hring.nextWriteSeq, hring.readSeq]; exact h.behind
  silenced := hsilenced
  live := hlive
  count := by rw [hring.nextWriteSeq, hring.written, h.count]
  content := by rw [hring.slots, hring.written]; exact h.content
  consumed := by rw [hring.readSeq, hring.written, hring.consumed]; exact h.consumed

/-! ### Steps of the main threads -/

section Main

variable {s t : System m τ} {i : Fin (m + 1)}

/-- A move of one main thread that neither begins `engine_close` nor touches the permits and tokens
of the others. -/
theorem Accounted.of_main_moved (h : Accounted s) {phase : MainPhase} (hring : SameRing s t)
    (hmains : t.mains = Function.update s.mains i phase) (hreaders : t.readers = s.readers)
    (hwriters : t.writers = s.writers) (hrunning : t.running = s.running)
    (hempty : t.ringEmpty = s.ringEmpty)
    (hpending : ∀ j, (t.mains j).closing = false → t.pending j = s.pending j)
    (hclosing : phase.closing = (s.mains i).closing)
    (hmutex : t.ringMutex + mainHolds phase = s.ringMutex + mainHolds (s.mains i)) :
    Accounted t := by
  have hsame : ∀ j, (t.mains j).closing = (s.mains j).closing := by
    intro j
    rw [hmains]
    by_cases hj : j = i
    · rw [hj, Function.update_self, hclosing]
    · rw [Function.update_of_ne hj]
  have htally := tally_update mainHolds s.mains i phase
  refine h.of_moved hring ?_ ?_ ?_ ?_ ?_ ?_
  · simp only [mutexHolders, hwriters, hreaders, hmains]
    omega
  · simp only [permitsHeld, postsOwed, hwriters, hreaders, hempty]
  · intro j hj
    rw [tokensOf, tokensOf, hpending j hj, hwriters, hreaders]
    exact ⟨hsame j ▸ hj, rfl⟩
  · rw [hreaders]
    exact h.committed
  · intro j hj
    rw [hrunning]
    exact h.silenced j (hsame j ▸ hj)
  · intro j hstarted hj
    rw [hrunning]
    exact h.live j (hreaders ▸ hstarted) (hsame j ▸ hj)

/-- The section of `engine_init` before the first frame only raises the `active` flag. -/
theorem Accounted.attach_readSeq (h : Accounted s) (hempty : s.region.nextWriteSeq = 0) :
    (s.region.attach i).readSeq = s.region.readSeq := by
  have hbehind := h.behind i
  rw [Region.attach_readSeq, hempty]
  exact Function.update_eq_self_iff.mpr (by omega)

/-- Every step of `engine_init` before the first frame keeps the accounts. -/
theorem Accounted.engineInit (h : Accounted s)
    (hempty : s.mains i = .initLocked → s.region.nextWriteSeq = 0)
    (hstep : engineInitStep s i = some t) : Accounted t := by
  unfold engineInitStep at hstep
  split at hstep
  case h_1 hmain =>
    split_ifs at hstep with hopen
    obtain rfl := Option.some.inj hstep
    exact h.of_main_moved (i := i) ⟨rfl, rfl, rfl, rfl, rfl⟩ rfl rfl rfl rfl rfl (fun _ _ ↦ rfl)
      (by rw [hmain]; rfl) (by simp only [hmain, mainHolds]; omega)
  case h_2 hmain =>
    obtain rfl := Option.some.inj hstep
    exact h.of_main_moved (i := i) ⟨rfl, h.attach_readSeq (hempty hmain), rfl, rfl, rfl⟩ rfl rfl rfl
      rfl rfl (fun _ _ ↦ rfl) (by rw [hmain]; rfl) (by rw [hmain]; rfl)
  case h_3 hmain =>
    obtain rfl := Option.some.inj hstep
    exact h.of_main_moved (i := i) ⟨rfl, rfl, rfl, rfl, rfl⟩ rfl rfl rfl rfl rfl (fun _ _ ↦ rfl)
      (by rw [hmain]; rfl) (by simp only [hmain, mainHolds])
  case h_4 => cases hstep

/-- `engine_close` stops the receive loop before anything else. -/
theorem Accounted.beginClose (h : Accounted s) (hmain : s.mains i = .attached) :
    Accounted { s with
      running := Function.update s.running i false
      mains := Function.update s.mains i .closePost } := by
  have htally := tally_update mainHolds s.mains i .closePost
  rw [hmain] at htally
  refine h.of_moved ⟨rfl, rfl, rfl, rfl, rfl⟩ ?_ rfl ?_ h.committed ?_ ?_
  · simp only [mutexHolders, mainHolds] at htally ⊢
    omega
  · intro j hj
    have hne : j ≠ i := by
      rintro rfl
      simp [MainPhase.closing] at hj
    simp only [Function.update_of_ne hne] at hj
    exact ⟨hj, rfl⟩
  · intro j hj
    by_cases hji : j = i
    · simp [hji]
    · simp only [Function.update_of_ne hji] at hj ⊢
      exact h.silenced j hj
  · intro j hstarted hj
    have hne : j ≠ i := by
      rintro rfl
      simp [MainPhase.closing] at hj
    simp only [Function.update_of_ne hne] at hj ⊢
    exact h.live j hstarted hj

/-- Every step of `engine_close` keeps the accounts. -/
theorem Accounted.engineClose (h : Accounted s) (hstep : engineCloseStep s i = some t) :
    Accounted t := by
  unfold engineCloseStep at hstep
  split at hstep
  case h_1 hmain =>
    obtain rfl := Option.some.inj hstep
    exact h.beginClose hmain
  case h_2 hmain =>
    obtain rfl := Option.some.inj hstep
    refine h.of_main_moved (i := i) ⟨rfl, rfl, rfl, rfl, rfl⟩ rfl rfl rfl rfl rfl (fun j hj ↦ ?_)
      (by rw [hmain]; rfl) (by rw [hmain]; rfl)
    -- the post wakes the own receive thread, whose tokens are no longer counted
    have hne : j ≠ i := by
      rintro rfl
      simp [MainPhase.closing] at hj
    simp only [Function.update_of_ne hne]
  case h_3 hmain =>
    split_ifs at hstep with hjoin
    obtain rfl := Option.some.inj hstep
    exact h.of_main_moved (i := i) ⟨rfl, rfl, rfl, rfl, rfl⟩ rfl rfl rfl rfl rfl (fun _ _ ↦ rfl)
      (by rw [hmain]; rfl) (by rw [hmain]; rfl)
  case h_4 hmain =>
    split_ifs at hstep with hopen
    obtain rfl := Option.some.inj hstep
    exact h.of_main_moved (i := i) ⟨rfl, rfl, rfl, rfl, rfl⟩ rfl rfl rfl rfl rfl (fun _ _ ↦ rfl)
      (by rw [hmain]; rfl) (by simp only [hmain, mainHolds]; omega)
  case h_5 hmain =>
    obtain rfl := Option.some.inj hstep
    exact h.of_main_moved (i := i)
      ⟨Region.detach_nextWriteSeq .., Region.detach_readSeq .., Region.detach_slots .., rfl, rfl⟩
      rfl rfl rfl rfl rfl (fun _ _ ↦ rfl) (by rw [hmain]; rfl) (by rw [hmain]; rfl)
  case h_6 hmain =>
    obtain rfl := Option.some.inj hstep
    exact h.of_main_moved (i := i) ⟨rfl, rfl, rfl, rfl, rfl⟩ rfl rfl rfl rfl rfl (fun _ _ ↦ rfl)
      (by rw [hmain]; rfl) (by simp only [hmain, mainHolds])
  case h_7 => cases hstep

/-- `start_receiving` keeps the accounts. -/
theorem Accounted.startReceiving (h : Accounted s)
    (hstep : SharedMemory.startReceiving s i = some t) : Accounted t := by
  unfold SharedMemory.startReceiving at hstep
  split_ifs at hstep with hready
  obtain ⟨hmain, hreader⟩ := hready
  obtain rfl := Option.some.inj hstep
  refine h.of_moved ⟨rfl, rfl, rfl, rfl, rfl⟩ ?_ ?_ ?_ ?_ ?_ ?_
  · simp only [mutexHolders]
    rw [tally_update_of_eq (by rw [hreader]; rfl)]
  · simp only [permitsHeld, postsOwed]
    rw [tally_update_of_eq (by rw [hreader]; rfl)]
  · intro j hj
    refine ⟨hj, ?_⟩
    by_cases hji : j = i
    · subst hji
      simp [tokensOf, hreader, readerToken]
    · simp [tokensOf, Function.update_of_ne hji]
  · intro j hj
    by_cases hji : j = i
    · subst hji
      simp [readerCommitted] at hj
    · simp only [Function.update_of_ne hji] at hj
      exact h.committed j hj
  · intro j hj
    have hne : j ≠ i := by
      rintro rfl
      simp [hmain, MainPhase.closing] at hj
    simp only [Function.update_of_ne hne]
    exact h.silenced j hj
  · intro j hstarted hj
    by_cases hji : j = i
    · simp [hji]
    · simp only [Function.update_of_ne hji] at hstarted ⊢
      exact h.live j hstarted hj

end Main

/-! ### Steps of the receive threads -/

section Receive

variable {s t : System m τ} {i : Fin (m + 1)}

/-- A move of one receive thread that exchanges what it holds for what it gives to the semaphores.
-/
theorem Accounted.of_reader_moved (h : Accounted s) {phase : ReaderPhase} (hring : SameRing s t)
    (hreaders : t.readers = Function.update s.readers i phase) (hmains : t.mains = s.mains)
    (hwriters : t.writers = s.writers) (hrunning : t.running = s.running)
    (hstarted : s.readers i ≠ .notStarted)
    (hothers : ∀ j, j ≠ i → t.pending j = s.pending j)
    (hmutex : t.ringMutex + readerHolds phase = s.ringMutex + readerHolds (s.readers i))
    (hempty : t.ringEmpty + readerOwes phase = s.ringEmpty + readerOwes (s.readers i))
    (hpending : (s.mains i).closing = false →
      t.pending i + readerToken phase = s.pending i + readerToken (s.readers i))
    (hcommitted : readerCommitted phase = true → s.region.readSeq i < s.region.nextWriteSeq) :
    Accounted t := by
  have hholds := tally_update readerHolds s.readers i phase
  have howes := tally_update readerOwes s.readers i phase
  refine h.of_moved hring ?_ ?_ ?_ ?_ ?_ ?_
  · simp only [mutexHolders, hwriters, hreaders, hmains]
    omega
  · simp only [permitsHeld, postsOwed, hwriters, hreaders]
    omega
  · intro j hj
    rw [hmains] at hj
    refine ⟨hj, ?_⟩
    simp only [tokensOf, hwriters, hreaders]
    by_cases hji : j = i
    · subst hji
      rw [Function.update_self, hpending hj]
    · rw [Function.update_of_ne hji, hothers j hji]
  · intro j hj
    rw [hreaders] at hj
    by_cases hji : j = i
    · subst hji
      exact hcommitted (by simpa using hj)
    · exact h.committed j (by simpa [Function.update_of_ne hji] using hj)
  · rw [hrunning, hmains]
    exact h.silenced
  · intro j hj hopen
    rw [hmains] at hopen
    rw [hrunning]
    by_cases hji : j = i
    · exact h.live j (hji ▸ hstarted) hopen
    · exact h.live j (by simpa [hreaders, Function.update_of_ne hji] using hj) hopen

/-- A reader past its test of `_running_receiver` has a frame to read. -/
theorem Accounted.lt_of_testRunning (h : Accounted s) (hreader : s.readers i = .testRunning)
    (hrunning : s.running i = true) : s.region.readSeq i < s.region.nextWriteSeq := by
  have hopen : (s.mains i).closing = false := by
    by_contra hclosing
    have hoff := h.silenced i (by simpa using hclosing)
    rw [hrunning] at hoff
    cases hoff
  have htokens := h.tokens i hopen
  simp only [tokensOf, hreader, readerToken] at htokens
  omega

/-- At most `SLOT_COUNT` frames are unread by a reader. -/
theorem Accounted.occupied_le (h : Accounted s) (i : Fin (m + 1)) :
    s.region.nextWriteSeq ≤ s.region.readSeq i + slotCount := by
  have hpermits := h.permits
  have hleast : least s.region.readSeq ≤ s.region.readSeq i := least_le i
  omega

/-- A slot that some reader has not consumed holds the frame of its sequence number. -/
theorem Accounted.slot_record (h : Accounted s)
    (hread : s.region.readSeq i < s.region.nextWriteSeq) :
    ∃ write, s.history.written[s.region.readSeq i]? = some write ∧
      (s.region.slots (slotIndex (s.region.readSeq i))).record = write.2 := by
  have hlength := h.count ▸ hread
  refine ⟨_, List.getElem?_eq_getElem hlength, ?_⟩
  exact h.content _ _ (List.getElem?_eq_getElem hlength) (h.count ▸ h.occupied_le i)

theorem numbered_take_succ {written : List (Fin (m + 1) × SlotRecord)} {seq : ℕ}
    {write : Fin (m + 1) × SlotRecord} (hwrite : written[seq]? = some write) :
    numbered (written.take (seq + 1)) = numbered (written.take seq) ++ [(seq, write.2)] := by
  obtain ⟨hlength, hget⟩ := List.getElem?_eq_some_iff.mp hwrite
  rw [numbered, List.take_succ_eq_append_getElem hlength, List.mapIdx_concat, hget, numbered,
    List.length_take, min_eq_left hlength.le]

/-- The section of `read_slot`: the reader consumes one frame, and decides to post a permit exactly
when no other reader is behind it, which is when the least `read_seq` advances. -/
theorem Accounted.consume (h : Accounted s) (hbound : s.history.written.length < 2 ^ 64)
    (hreader : s.readers i = .locked) {post : Bool} {copied : Option Delivery}
    (hpost : post =
      decide ((s.region.advance i).readSeq i ≤ (s.region.advance i).leastReadSeqNotMe i)) :
    Accounted { s with
      region := s.region.advance i
      readers := Function.update s.readers i (.unlock post copied)
      history := { s.history with
        consumed := Function.update s.history.consumed i
          (s.history.consumed i ++
            [(s.region.readSeq i,
              (s.region.slots (slotIndex (s.region.readSeq i))).record)]) } } := by
  have hlt := h.committed i (by rw [hreader]; rfl)
  have hcount := h.count
  have hsucc : increment64 (s.region.readSeq i) = s.region.readSeq i + 1 :=
    increment64_of_lt (by omega)
  have hread : (s.region.advance i).readSeq =
      Function.update s.region.readSeq i (s.region.readSeq i + 1) := by
    rw [Region.advance_readSeq, hsucc]
  have hlast : post = true ↔ ∀ j, j ≠ i → s.region.readSeq i + 1 ≤ s.region.readSeq j := by
    rw [hpost, decide_eq_true_iff, hread, Function.update_self,
      Region.le_leastReadSeqNotMe_iff _ _ (by omega)]
    refine forall_congr' fun j ↦ imp_congr_right fun hj ↦ ?_
    rw [hread, Function.update_of_ne hj]
  have hleast := least_update_succ s.region.readSeq i
  obtain ⟨write, hwrite, hrecord⟩ := h.slot_record hlt
  refine
    { mutex := ?_
      permits := ?_
      tokens := ?_
      committed := ?_
      behind := ?_
      silenced := h.silenced
      live := ?_
      count := h.count
      content := h.content
      consumed := ?_ }
  · have hmutex := h.mutex
    simp only [mutexHolders] at hmutex ⊢
    rw [tally_update_of_eq (by rw [hreader]; rfl)]
    exact hmutex
  · have hpermits := h.permits
    have howes := tally_update readerOwes s.readers i (.unlock post copied)
    simp only [permitsHeld, postsOwed, Region.advance_nextWriteSeq] at hpermits ⊢
    rw [hread, hleast]
    cases post with
    | true =>
      rw [if_pos (hlast.mp rfl)]
      simp only [hreader, readerOwes] at howes
      omega
    | false =>
      rw [if_neg (mt hlast.mpr (by simp))]
      simp only [hreader, readerOwes] at howes
      omega
  · intro j hj
    have htokens := h.tokens j hj
    simp only [tokensOf, Region.advance_nextWriteSeq] at htokens ⊢
    rw [hread]
    by_cases hji : j = i
    · subst hji
      simp only [Function.update_self, hreader, readerToken] at htokens ⊢
      omega
    · rw [Function.update_of_ne hji, Function.update_of_ne hji]
      exact htokens
  · intro j hj
    have hji : j ≠ i := by
      rintro rfl
      simp [readerCommitted] at hj
    simp only [Function.update_of_ne hji, Region.advance_nextWriteSeq, hread] at hj ⊢
    exact h.committed j hj
  · intro j
    simp only [Region.advance_nextWriteSeq, hread]
    by_cases hji : j = i
    · subst hji
      rw [Function.update_self]
      exact hlt
    · rw [Function.update_of_ne hji]
      exact h.behind j
  · intro j hstarted hopen
    by_cases hji : j = i
    · subst hji
      exact h.live j (by simp [hreader]) hopen
    · simp only [Function.update_of_ne hji] at hstarted
      exact h.live j hstarted hopen
  · intro j
    simp only [hread]
    by_cases hji : j = i
    · subst hji
      rw [Function.update_self, Function.update_self, numbered_take_succ hwrite, h.consumed j,
        hrecord]
    · rw [Function.update_of_ne hji, Function.update_of_ne hji]
      exact h.consumed j

/-- Back from `read_slot` the receive thread holds nothing. -/
theorem afterRead_holds (copied : Option Delivery) :
    readerHolds (afterRead copied) = 0 ∧ readerOwes (afterRead copied) = 0 ∧
      readerToken (afterRead copied) = 0 ∧ readerCommitted (afterRead copied) = false := by
  cases copied with
  | none => exact ⟨rfl, rfl, rfl, rfl⟩
  | some delivery =>
    by_cases hbytes : delivery.bytes = [] <;>
      simp [afterRead, hbytes, readerHolds, readerOwes, readerToken, readerCommitted]

/-- Every step of the receive loop keeps the accounts. -/
theorem Accounted.receive (h : Accounted s) (hbound : s.history.written.length < 2 ^ 64)
    (hstep : receiveStep s i = some t) : Accounted t := by
  unfold receiveStep at hstep
  split at hstep
  case h_1 hreader =>
    obtain rfl := Option.some.inj hstep
    refine h.of_reader_moved (i := i) ⟨rfl, rfl, rfl, rfl, rfl⟩ rfl rfl rfl rfl
      (by simp [hreader]) (fun _ _ ↦ rfl) ?_ ?_ (fun _ ↦ ?_) ?_
    all_goals split_ifs <;>
      simp [hreader, readerHolds, readerOwes, readerToken, readerCommitted]
  case h_2 hreader =>
    split_ifs at hstep with hpending
    obtain rfl := Option.some.inj hstep
    refine h.of_reader_moved (i := i) ⟨rfl, rfl, rfl, rfl, rfl⟩ rfl rfl rfl rfl
      (by simp [hreader]) (fun j hj ↦ Function.update_of_ne hj ..) (by rw [hreader]; rfl)
      (by rw [hreader]; rfl) (fun _ ↦ ?_) (fun hopen ↦ by cases hopen)
    simp only [Function.update_self, hreader, readerToken]
    omega
  case h_3 hreader =>
    obtain rfl := Option.some.inj hstep
    cases hrunning : s.running i with
    | true =>
      exact h.of_reader_moved (i := i) ⟨rfl, rfl, rfl, rfl, rfl⟩ rfl rfl rfl rfl
        (by simp [hreader]) (fun _ _ ↦ rfl) (by rw [hreader]; rfl) (by rw [hreader]; rfl)
        (fun _ ↦ by rw [hreader]; rfl) (fun _ ↦ h.lt_of_testRunning hreader hrunning)
    | false =>
      -- the token is lost with the thread, which only ends when `engine_close` has begun
      refine h.of_reader_moved (i := i) ⟨rfl, rfl, rfl, rfl, rfl⟩ rfl rfl rfl rfl
        (by simp [hreader]) (fun _ _ ↦ rfl) (by rw [hreader]; rfl) (by rw [hreader]; rfl)
        (fun hopen ↦ ?_) (fun hcommitted ↦ by cases hcommitted)
      have hlive := h.live i (by simp [hreader]) hopen
      rw [hrunning] at hlive
      cases hlive
  case h_4 hreader =>
    split_ifs at hstep with hopen
    obtain rfl := Option.some.inj hstep
    refine h.of_reader_moved (i := i) ⟨rfl, rfl, rfl, rfl, rfl⟩ rfl rfl rfl rfl
      (by simp [hreader]) (fun _ _ ↦ rfl) ?_ (by rw [hreader]; rfl)
      (fun _ ↦ by rw [hreader]; rfl) (fun _ ↦ h.committed i (by rw [hreader]; rfl))
    simp only [hreader, readerHolds]
    omega
  case h_5 hreader =>
    obtain rfl := Option.some.inj hstep
    exact h.consume hbound hreader rfl
  case h_6 shouldPostEmpty copied hreader =>
    obtain rfl := Option.some.inj hstep
    obtain ⟨hholds, howes, htoken, hcommitted⟩ := afterRead_holds copied
    cases shouldPostEmpty with
    | true =>
      exact h.of_reader_moved (i := i) ⟨rfl, rfl, rfl, rfl, rfl⟩ rfl rfl rfl rfl
        (by simp [hreader]) (fun _ _ ↦ rfl) (by rw [hreader]; rfl) (by rw [hreader]; rfl)
        (fun _ ↦ by rw [hreader]; rfl) (fun hcommitted ↦ by cases hcommitted)
    | false =>
      refine h.of_reader_moved (i := i) ⟨rfl, rfl, rfl, rfl, rfl⟩ rfl rfl rfl rfl
        (by simp [hreader]) (fun _ _ ↦ rfl) ?_ ?_ (fun _ ↦ ?_) ?_
      · rw [hreader, if_neg Bool.false_ne_true, hholds]
        rfl
      · rw [hreader, if_neg Bool.false_ne_true, howes]
        rfl
      · rw [hreader, if_neg Bool.false_ne_true, htoken]
        rfl
      · rw [if_neg Bool.false_ne_true, hcommitted]
        exact fun hopen ↦ by cases hopen
  case h_7 copied hreader =>
    obtain rfl := Option.some.inj hstep
    obtain ⟨hholds, howes, htoken, hcommitted⟩ := afterRead_holds copied
    refine h.of_reader_moved (i := i) ⟨rfl, rfl, rfl, rfl, rfl⟩ rfl rfl rfl rfl
      (by simp [hreader]) (fun _ _ ↦ rfl) ?_ ?_ (fun _ ↦ ?_) ?_
    · rw [hreader, hholds]
      rfl
    · rw [hreader, howes]
      rfl
    · rw [hreader, htoken]
      rfl
    · rw [hcommitted]
      exact fun hopen ↦ by cases hopen
  case h_8 delivery hreader =>
    obtain rfl := Option.some.inj hstep
    exact h.of_reader_moved (i := i) ⟨rfl, rfl, rfl, rfl, rfl⟩ rfl rfl rfl rfl
      (by simp [hreader]) (fun _ _ ↦ rfl) (by rw [hreader]; rfl) (by rw [hreader]; rfl)
      (fun _ ↦ by rw [hreader]; rfl) (fun hcommitted ↦ by cases hcommitted)
  case h_9 => cases hstep

end Receive

/-! ### Steps of the writers -/

section Write

variable [DecidableEq τ] {s t : System m τ} {w : τ}

/-- A move of one writer that exchanges what it holds for what it gives to the semaphores. -/
theorem Accounted.of_writer_moved (h : Accounted s) {phase : WriterPhase m} (hring : SameRing s t)
    (hwriters : t.writers = Function.update s.writers w phase) (hmains : t.mains = s.mains)
    (hreaders : t.readers = s.readers) (hrunning : t.running = s.running)
    (hmutex : t.ringMutex + writerHolds phase = s.ringMutex + writerHolds (s.writers w))
    (hempty : t.ringEmpty + writerPermit phase = s.ringEmpty + writerPermit (s.writers w))
    (hpending : ∀ i, t.pending i + unposted i phase = s.pending i + unposted i (s.writers w)) :
    Accounted t := by
  have hholds := tally_update writerHolds s.writers w phase
  have hpermit := tally_update writerPermit s.writers w phase
  refine h.of_moved hring ?_ ?_ ?_ ?_ ?_ ?_
  · simp only [mutexHolders, hwriters, hreaders, hmains]
    omega
  · simp only [permitsHeld, postsOwed, hwriters, hreaders]
    omega
  · intro i hi
    rw [hmains] at hi
    have hposts := tally_update (unposted i) s.writers w phase
    have hown := hpending i
    refine ⟨hi, ?_⟩
    simp only [tokensOf, hwriters, hreaders]
    omega
  · rw [hreaders]
    exact h.committed
  · rw [hrunning, hmains]
    exact h.silenced
  · rw [hreaders, hmains, hrunning]
    exact h.live

omit [DecidableEq τ] in
/-- A writer that holds a permit finds a slot that every reader has consumed. -/
theorem Accounted.room_of_permit (h : Accounted s) (hpermit : writerPermit (s.writers w) = 1)
    (i : Fin (m + 1)) : s.region.nextWriteSeq < s.region.readSeq i + slotCount := by
  have hpermits := h.permits
  have hheld : writerPermit (s.writers w) ≤ permitsHeld s := cost_le_tally w
  have hleast : least s.region.readSeq ≤ s.region.readSeq i := least_le i
  omega

/-- The section of `write_slot` up to the posts: the new frame takes the place of one that every
reader has consumed. -/
theorem Accounted.fill (h : Accounted s) (hbound : s.history.written.length + 1 < 2 ^ 64)
    {p : Fin (m + 1)} {request : WriteRequest} (hwriter : s.writers w = .fill p request) :
    Accounted { s with
      region := s.region.publish request
      writers := Function.update s.writers w (.posting 0)
      history := { s.history with written := s.history.written ++ [(p, request.record)] } } := by
  have hcount := h.count
  have hnext : (s.region.publish request).nextWriteSeq = s.region.nextWriteSeq + 1 :=
    increment64_of_lt (by omega)
  refine
    { mutex := ?_
      permits := ?_
      tokens := ?_
      committed := ?_
      behind := ?_
      silenced := h.silenced
      live := h.live
      count := ?_
      content := ?_
      consumed := ?_ }
  · have hmutex := h.mutex
    simp only [mutexHolders] at hmutex ⊢
    rw [tally_update_of_eq (by rw [hwriter]; rfl)]
    exact hmutex
  · have hpermits := h.permits
    have hpermit := tally_update writerPermit s.writers w (.posting 0)
    simp only [hwriter, writerPermit] at hpermit
    simp only [permitsHeld, postsOwed, hnext, Region.publish_readSeq] at hpermits ⊢
    omega
  · intro i hi
    have htokens := h.tokens i hi
    have hposts := tally_update (unposted i) s.writers w (.posting 0)
    simp only [hwriter, unposted, Nat.zero_le, if_true] at hposts
    simp only [tokensOf, hnext, Region.publish_readSeq] at htokens ⊢
    omega
  · intro i hi
    have hlt := h.committed i hi
    rw [hnext, Region.publish_readSeq]
    omega
  · intro i
    have hle := h.behind i
    rw [hnext, Region.publish_readSeq]
    omega
  · rw [hnext, hcount, List.length_append, List.length_singleton]
  · intro seq write hwrite hrecent
    simp only [List.length_append, List.length_singleton] at hrecent
    change (Function.update s.region.slots (slotIndex s.region.nextWriteSeq) _
      (slotIndex seq)).record = write.2
    rcases Nat.lt_or_ge seq s.history.written.length with hold | hnew
    · rw [List.getElem?_append_left hold] at hwrite
      have hother : slotIndex seq ≠ slotIndex s.region.nextWriteSeq :=
        slotIndex_ne (by omega) (by omega)
      rw [Function.update_of_ne hother]
      exact h.content seq write hwrite (by omega)
    · have hlast : seq = s.history.written.length := by
        obtain ⟨hlength, -⟩ := List.getElem?_eq_some_iff.mp hwrite
        simp only [List.length_append, List.length_singleton] at hlength
        omega
      subst hlast
      rw [List.getElem?_append_right le_rfl, Nat.sub_self, List.getElem?_cons_zero,
        Option.some.injEq] at hwrite
      rw [hcount, Function.update_self, BroadcastSlot.record_write, ← hwrite]
  · intro i
    have hle := h.behind i
    rw [Region.publish_readSeq, List.take_append_of_le_length (by omega)]
    exact h.consumed i

/-- Every step of `write_slot` keeps the accounts. -/
theorem Accounted.writeSlot (h : Accounted s) (hstep : writeSlotStep s w = some t)
    (hbound : t.history.written.length < 2 ^ 64) : Accounted t := by
  unfold writeSlotStep at hstep
  split at hstep
  case h_1 => cases hstep
  case h_2 p request hwriter =>
    split_ifs at hstep with hempty
    obtain rfl := Option.some.inj hstep
    refine h.of_writer_moved (w := w) ⟨rfl, rfl, rfl, rfl, rfl⟩ rfl rfl rfl rfl
      (by rw [hwriter]; rfl) ?_ (fun _ ↦ by rw [hwriter]; rfl)
    simp only [hwriter, writerPermit]
    omega
  case h_3 p request hwriter =>
    split_ifs at hstep with hopen
    obtain rfl := Option.some.inj hstep
    refine h.of_writer_moved (w := w) ⟨rfl, rfl, rfl, rfl, rfl⟩ rfl rfl rfl rfl ?_
      (by rw [hwriter]; rfl) (fun _ ↦ by rw [hwriter]; rfl)
    simp only [hwriter, writerHolds]
    omega
  case h_4 p request hwriter =>
    obtain rfl := Option.some.inj hstep
    refine h.fill ?_ hwriter
    simpa using hbound
  case h_5 i hwriter =>
    split_ifs at hstep with hi
    · obtain rfl := Option.some.inj hstep
      refine h.of_writer_moved (w := w) ⟨rfl, rfl, rfl, rfl, rfl⟩ rfl rfl rfl rfl
        (by rw [hwriter]; rfl) (by rw [hwriter]; rfl) (fun j ↦ ?_)
      by_cases hj : j = ⟨i, hi⟩
      · subst hj
        simp [hwriter, unposted]
      · have hval : (j : ℕ) ≠ i := fun heq ↦ hj (Fin.ext heq)
        simp only [Function.update_of_ne hj, hwriter, unposted]
        split_ifs <;> omega
    · obtain rfl := Option.some.inj hstep
      refine h.of_writer_moved (w := w) ⟨rfl, rfl, rfl, rfl, rfl⟩ rfl rfl rfl rfl
        (by rw [hwriter]; rfl) (by rw [hwriter]; rfl) (fun j ↦ ?_)
      have hj := j.isLt
      simp only [hwriter, unposted]
      split_ifs <;> omega

/-- A call of `write_slot` holds nothing yet. -/
theorem Accounted.callWriteSlot (h : Accounted s) {p : Fin (m + 1)} {request : WriteRequest}
    (hstep : SharedMemory.callWriteSlot s w p request = some t) : Accounted t := by
  unfold SharedMemory.callWriteSlot at hstep
  split_ifs at hstep with hready
  obtain rfl := Option.some.inj hstep
  exact h.of_writer_moved (w := w) ⟨rfl, rfl, rfl, rfl, rfl⟩ rfl rfl rfl rfl
    (by rw [hready.1]; rfl) (by rw [hready.1]; rfl) (fun _ ↦ by rw [hready.1]; rfl)

end Write

/-! ### Runs -/

section Runs

variable [DecidableEq τ] {s t : System m τ}

/-- Guard of a run in which no process runs the section of `engine_init` after the first frame. -/
def AttachesEmpty (s : System m τ) : Action m τ → Prop
  | .engineInit i => s.mains i = .initLocked → s.region.nextWriteSeq = 0
  | _ => True

instance (s : System m τ) (action : Action m τ) : Decidable (AttachesEmpty s action) :=
  match action with
  | .engineInit i => inferInstanceAs
    (Decidable (s.mains i = .initLocked → s.region.nextWriteSeq = 0))
  | .startReceiving _ | .engineClose _ | .receive _ | .callWriteSlot .. | .writeSlot _ =>
    isTrue trivial

omit [Fintype τ] in
/-- A step adds at most one write to the record. -/
theorem written_prefix_of_step {action : Action m τ} (hstep : step s action = some t) :
    s.history.written <+: t.history.written := by
  cases action with
  | engineInit i =>
    simp only [step, engineInitStep] at hstep
    split at hstep <;> try split_ifs at hstep
    all_goals first | (obtain rfl := Option.some.inj hstep; exact List.prefix_rfl) | cases hstep
  | startReceiving i =>
    simp only [step, SharedMemory.startReceiving] at hstep
    split_ifs at hstep
    obtain rfl := Option.some.inj hstep
    exact List.prefix_rfl
  | engineClose i =>
    simp only [step, engineCloseStep] at hstep
    split at hstep <;> try split_ifs at hstep
    all_goals first | (obtain rfl := Option.some.inj hstep; exact List.prefix_rfl) | cases hstep
  | receive i =>
    simp only [step, receiveStep] at hstep
    split at hstep <;> try split_ifs at hstep
    all_goals first | (obtain rfl := Option.some.inj hstep; exact List.prefix_rfl) | cases hstep
  | callWriteSlot w p request =>
    simp only [step, SharedMemory.callWriteSlot] at hstep
    split_ifs at hstep
    obtain rfl := Option.some.inj hstep
    exact List.prefix_rfl
  | writeSlot w =>
    simp only [step, writeSlotStep] at hstep
    split at hstep
    case h_4 =>
      obtain rfl := Option.some.inj hstep
      exact List.prefix_append ..
    all_goals try split_ifs at hstep
    all_goals first | (obtain rfl := Option.some.inj hstep; exact List.prefix_rfl) | cases hstep

/-- One step of a run in which nobody attaches late keeps the accounts. -/
theorem Accounted.step (h : Accounted s) {action : Action m τ} (hguard : AttachesEmpty s action)
    (hstep : SharedMemory.step s action = some t) (hbound : t.history.written.length < 2 ^ 64) :
    Accounted t := by
  have hbefore : s.history.written.length < 2 ^ 64 :=
    (written_prefix_of_step hstep).length_le.trans_lt hbound
  cases action with
  | engineInit i => exact h.engineInit hguard hstep
  | startReceiving i => exact h.startReceiving hstep
  | engineClose i => exact h.engineClose hstep
  | receive i => exact h.receive hbefore hstep
  | callWriteSlot w p request => exact h.callWriteSlot hstep
  | writeSlot w => exact h.writeSlot hstep hbound

/-- The accounts balance in every state of a run in which nobody attaches after the first frame and
the 64-bit counters do not wrap. -/
theorem accounted_of_reaches (hrun : Reaches step AttachesEmpty (create m τ) s)
    (hbound : s.history.written.length < 2 ^ 64) : Accounted s := by
  refine Reaches.invariant (P := fun s ↦ s.history.written.length < 2 ^ 64 → Accounted s)
    (fun s action t hinv hguard hstep hlength ↦ ?_) hrun (fun _ ↦ accounted_create m τ) hbound
  exact (hinv ((written_prefix_of_step hstep).length_le.trans_lt hlength)).step hguard hstep hlength

end Runs

end VehicleComm.SharedMemory
