import VehicleComm.SharedMemory.RingSafety

/-!
# Delivery

Who gets a frame. A receive handler has been called with, and the receive thread still carries, what
`read_slot` copied out of the frames consumed so far, in their order (`carried_of_reaches`). Along
runs whose writes all come from `engine_send` a frame is copied out by every process but its writer,
when the writer is a component, and by every process including the writer, when it is the gateway
(`shouldRead_of_engineRecord`): the gateway writes under a sentinel that `read_slot` compares with
slot numbers. So a frame reaches each handler but that of its writer once exactly when the writer is
not the gateway (`delivery_set`).

Once means at most once in every state, and exactly once when the receive thread is past the frame;
that it gets there is `SharedMemory.Draining`. As in `ring_safety`, all processes attach first and
none closes, with fewer than `2 ^ 64` frames. The components are fewer than `MAX_COMPONENTS`, so
that no slot of theirs is the sentinel.
-/

set_option autoImplicit false
set_option relaxedAutoImplicit false

namespace VehicleComm.SharedMemory

open Library

variable {m : ℕ} {τ : Type*}

/-! ### What a receive thread carries -/

/-- The call of the handler that a copied frame leads to: none for an empty one. -/
def handedOn : Option Delivery → List Delivery
  | none => []
  | some delivery => if delivery.bytes = [] then [] else [delivery]

/-- What a receive thread has copied out of the ring and not handed to the handler. -/
def inTransit : ReaderPhase → List Delivery
  | .unlock _ copied | .postEmpty copied => handedOn copied
  | .handler delivery => [delivery]
  | _ => []

/-- What `read_slot` of process `i` makes of the frame of sequence number `seq`. -/
def readOut (i : Fin (m + 1)) (seq : ℕ) (record : SlotRecord) : List Delivery :=
  handedOn (if shouldRead i record then some ⟨seq, record.bytes.take shmFrameSize⟩ else none)

theorem handedOn_copyOut (i : Fin (m + 1)) (seq : ℕ) (slot : BroadcastSlot) :
    handedOn (copyOut i seq slot) = readOut i seq slot.record := by
  have hbytes : slot.frame.take (min slot.frameSize shmFrameSize) =
      slot.record.bytes.take shmFrameSize := by
    rw [BroadcastSlot.record, List.take_take, min_comm]
  rw [copyOut, readOut, hbytes]

theorem inTransit_afterRead (copied : Option Delivery) :
    inTransit (afterRead copied) = handedOn copied := by
  cases copied with
  | none => rfl
  | some delivery =>
    by_cases hbytes : delivery.bytes = []
    · simp [afterRead, handedOn, hbytes, inTransit]
    · simp [afterRead, handedOn, hbytes, inTransit]

/-- The frames handed to a handler, and the one on its way there, are those read out of the frames
consumed. -/
def Carried (s : System m τ) : Prop :=
  ∀ i, s.history.handled i ++ inTransit (s.readers i) =
    (s.history.consumed i).flatMap fun seen ↦ readOut i seen.1 seen.2

/-- A move of one receive thread that neither reads nor hands on. -/
theorem Carried.of_reader_moved {s t : System m τ} (h : Carried s) {i : Fin (m + 1)}
    {phase : ReaderPhase} (hreaders : t.readers = Function.update s.readers i phase)
    (hhistory : t.history = s.history) (htransit : inTransit phase = inTransit (s.readers i)) :
    Carried t := by
  intro j
  rw [hreaders, hhistory]
  by_cases hji : j = i
  · subst hji
    rw [Function.update_self, htransit]
    exact h j
  · rw [Function.update_of_ne hji]
    exact h j

/-- The receive loop keeps what is carried. -/
theorem Carried.receive {s t : System m τ} (h : Carried s) {i : Fin (m + 1)}
    (hstep : receiveStep s i = some t) : Carried t := by
  unfold receiveStep at hstep
  split at hstep
  case h_1 hreader =>
    cases hstep
    refine h.of_reader_moved (i := i) rfl rfl ?_
    rw [hreader]
    split_ifs <;> rfl
  case h_2 hreader =>
    split_ifs at hstep
    cases hstep
    exact h.of_reader_moved (i := i) rfl rfl (by rw [hreader]; rfl)
  case h_3 hreader =>
    cases hstep
    refine h.of_reader_moved (i := i) rfl rfl ?_
    rw [hreader]
    split_ifs <;> rfl
  case h_4 hreader =>
    split_ifs at hstep
    cases hstep
    exact h.of_reader_moved (i := i) rfl rfl (by rw [hreader]; rfl)
  case h_5 hreader =>
    cases hstep
    intro j
    by_cases hji : j = i
    · subst hji
      have hnone : inTransit (s.readers j) = [] := by rw [hreader]; rfl
      have hj := h j
      rw [hnone, List.append_nil] at hj
      simp only [Function.update_self, inTransit, List.flatMap_append, List.flatMap_singleton]
      rw [hj, handedOn_copyOut]
    · simp only [Function.update_of_ne hji]
      exact h j
  case h_6 shouldPostEmpty copied hreader =>
    cases hstep
    refine h.of_reader_moved (i := i) rfl rfl ?_
    rw [hreader]
    split_ifs
    · rfl
    · exact inTransit_afterRead copied
  case h_7 copied hreader =>
    cases hstep
    refine h.of_reader_moved (i := i) rfl rfl ?_
    rw [hreader]
    exact inTransit_afterRead copied
  case h_8 delivery hreader =>
    cases hstep
    intro j
    by_cases hji : j = i
    · subst hji
      have hone : inTransit (s.readers j) = [delivery] := by rw [hreader]; rfl
      have hj := h j
      rw [hone] at hj
      simp only [Function.update_self, inTransit, List.append_nil]
      exact hj
    · simp only [Function.update_of_ne hji]
      exact h j
  case h_9 => cases hstep

variable [DecidableEq τ]

/-- Each step keeps what is carried. -/
theorem carried_step (s : System m τ) (action : Action m τ) (t : System m τ) (h : Carried s)
    (hstep : step s action = some t) : Carried t := by
  cases action with
  | engineInit i =>
    simp only [step, engineInitStep] at hstep
    split at hstep <;> try split_ifs at hstep
    all_goals cases hstep
    all_goals exact h
  | startReceiving i =>
    simp only [step, startReceiving] at hstep
    split_ifs at hstep with hready
    cases hstep
    exact h.of_reader_moved (i := i) rfl rfl (by rw [hready.2]; rfl)
  | engineClose i =>
    simp only [step, engineCloseStep] at hstep
    split at hstep <;> try split_ifs at hstep
    all_goals cases hstep
    all_goals exact h
  | receive i => exact h.receive hstep
  | callWriteSlot w p request =>
    simp only [step, callWriteSlot] at hstep
    split_ifs at hstep
    cases hstep
    exact h
  | writeSlot w =>
    simp only [step, writeSlotStep] at hstep
    split at hstep <;> try split_ifs at hstep
    all_goals cases hstep
    all_goals exact h

/-- In every run a handler has been called with the frames read out for it, up to the one on its
way. -/
theorem carried_of_reaches {guard : System m τ → Action m τ → Prop} {s : System m τ}
    (hrun : Reaches step guard (create m τ) s) : Carried s :=
  hrun.invariant (fun s action t h _ hstep ↦ carried_step s action t h hstep) fun _ ↦ rfl

/-! ### Writes that come from `engine_send` -/

/-- Guard of a run in which every call of `write_slot` is made by `engine_send`. -/
def SentByEngine (_ : System m τ) : Action m τ → Prop
  | .callWriteSlot _ p request =>
    engineSend p request.frame request.size request.readable = some request
  | _ => True

instance (s : System m τ) (action : Action m τ) : Decidable (SentByEngine s action) :=
  match action with
  | .callWriteSlot _ p request => inferInstanceAs
      (Decidable (engineSend p request.frame request.size request.readable = some request))
  | .engineInit _ | .startReceiving _ | .engineClose _ | .receive _ | .writeSlot _ => isTrue trivial

/-- Guard of a run in which all processes attach first, none closes, and all writes come from
`engine_send`. -/
def Broadcasts (s : System m τ) (action : Action m τ) : Prop :=
  Steady s action ∧ SentByEngine s action

instance (s : System m τ) (action : Action m τ) : Decidable (Broadcasts s action) :=
  inferInstanceAs (Decidable (_ ∧ _))

/-- What `engine_send` of process `p` publishes. -/
structure EngineRecord (p : Fin (m + 1)) (record : SlotRecord) : Prop where
  writerSlot : record.writerSlot = if p = gatewaySlot then gatewayWriter else p
  flags : record.flags =
    if p = gatewaySlot then deliverToComponents else deliverToComponents ||| deliverToGateway
  nonempty : record.bytes ≠ []
  short : record.bytes.length ≤ shmFrameSize

theorem engineRecord_of_engineSend {p : Fin (m + 1)} {request : WriteRequest}
    (hsend : engineSend p request.frame request.size request.readable = some request) :
    EngineRecord p request.record := by
  have hsize : request.size ≠ 0 := by
    intro hzero
    rw [engineSend, if_pos hzero] at hsend
    cases hsend
  have hwriter : request.writerSlot = (if p = gatewaySlot then gatewayWriter else p) ∧
      request.flags = if p = gatewaySlot then deliverToComponents
        else deliverToComponents ||| deliverToGateway := by
    rw [engineSend, if_neg hsize] at hsend
    split_ifs at hsend ⊢ with hp
    · rw [← Option.some.inj hsend]
      exact ⟨rfl, rfl⟩
    · rw [← Option.some.inj hsend]
      exact ⟨rfl, rfl⟩
  have hlength : request.record.bytes.length = min request.size shmFrameSize := by
    rw [WriteRequest.record, List.length_take, min_eq_left request.readable]
  refine ⟨hwriter.1, hwriter.2, ?_, ?_⟩
  · intro hnil
    rw [hnil, List.length_nil] at hlength
    simp only [shmFrameSize] at hlength
    omega
  · rw [hlength]
    exact min_le_right _ _

/-- The request that a thread is about to publish. -/
def WriterPhase.requested : WriterPhase m → Option (Fin (m + 1) × WriteRequest)
  | .waitEmpty p request | .waitMutex p request | .fill p request => some (p, request)
  | _ => none

/-- Every frame published, and every one about to be, comes from `engine_send`. -/
def AllSentByEngine (s : System m τ) : Prop :=
  (∀ write ∈ s.history.written, EngineRecord write.1 write.2) ∧
    ∀ w p request, (s.writers w).requested = some (p, request) → EngineRecord p request.record

/-- A writer that moves on carries the request it carried, or none. -/
theorem AllSentByEngine.of_writer_moved {s t : System m τ} {w : τ} {phase : WriterPhase m}
    (h : AllSentByEngine s) (hwritten : t.history.written = s.history.written)
    (hwriters : t.writers = Function.update s.writers w phase)
    (hphase : phase.requested = (s.writers w).requested ∨ phase.requested = none) :
    AllSentByEngine t := by
  refine ⟨by rw [hwritten]; exact h.1, fun v p request hrequest ↦ ?_⟩
  rw [hwriters] at hrequest
  by_cases hv : v = w
  · subst hv
    rw [Function.update_self] at hrequest
    rcases hphase with hsame | hnone
    · exact h.2 v p request (hsame ▸ hrequest)
    · rw [hnone] at hrequest
      cases hrequest
  · rw [Function.update_of_ne hv] at hrequest
    exact h.2 v p request hrequest

/-- Each step of `write_slot`. -/
theorem AllSentByEngine.writeSlot {s t : System m τ} {w : τ} (h : AllSentByEngine s)
    (hstep : writeSlotStep s w = some t) : AllSentByEngine t := by
  unfold writeSlotStep at hstep
  split at hstep
  case h_1 => cases hstep
  case h_2 p request hwriter =>
    split_ifs at hstep
    cases hstep
    exact h.of_writer_moved rfl rfl (Or.inl (by rw [hwriter]; rfl))
  case h_3 p request hwriter =>
    split_ifs at hstep
    cases hstep
    exact h.of_writer_moved rfl rfl (Or.inl (by rw [hwriter]; rfl))
  case h_4 p request hwriter =>
    cases hstep
    have hrecord := h.2 w p request (by rw [hwriter]; rfl)
    refine ⟨fun write hwrite ↦ ?_, fun v q other hother ↦ ?_⟩
    · rcases List.mem_append.mp hwrite with hold | hnew
      · exact h.1 write hold
      · rw [List.mem_singleton.mp hnew]
        exact hrecord
    · by_cases hv : v = w
      · subst hv
        simp [WriterPhase.requested] at hother
      · simp only [Function.update_of_ne hv] at hother
        exact h.2 v q other hother
  case h_5 k hwriter =>
    split_ifs at hstep
    all_goals cases hstep
    all_goals exact h.of_writer_moved rfl rfl (Or.inr rfl)

/-- Each step of a run whose writes come from `engine_send`. -/
theorem allSentByEngine_step (s : System m τ) (action : Action m τ) (t : System m τ)
    (h : AllSentByEngine s) (hguard : SentByEngine s action) (hstep : step s action = some t) :
    AllSentByEngine t := by
  cases action with
  | engineInit i =>
    simp only [step, engineInitStep] at hstep
    split at hstep <;> try split_ifs at hstep
    all_goals cases hstep
    all_goals exact h
  | startReceiving i =>
    simp only [step, startReceiving] at hstep
    split_ifs at hstep
    cases hstep
    exact h
  | engineClose i =>
    simp only [step, engineCloseStep] at hstep
    split at hstep <;> try split_ifs at hstep
    all_goals cases hstep
    all_goals exact h
  | receive i =>
    simp only [step, receiveStep] at hstep
    split at hstep <;> try split_ifs at hstep
    all_goals cases hstep
    all_goals exact h
  | callWriteSlot w p request =>
    simp only [step, callWriteSlot] at hstep
    split_ifs at hstep
    cases hstep
    refine ⟨h.1, fun v q other hother ↦ ?_⟩
    by_cases hv : v = w
    · subst hv
      simp only [Function.update_self, WriterPhase.requested, Option.some.injEq,
        Prod.mk.injEq] at hother
      obtain ⟨rfl, rfl⟩ := hother
      exact engineRecord_of_engineSend hguard
    · simp only [Function.update_of_ne hv] at hother
      exact h.2 v q other hother
  | writeSlot w => exact h.writeSlot hstep

theorem allSentByEngine_of_reaches {s : System m τ}
    (hrun : Reaches step SentByEngine (create m τ) s) : AllSentByEngine s := by
  refine hrun.invariant allSentByEngine_step ⟨by simp [create], fun w p request hrequest ↦ ?_⟩
  simp [create, WriterPhase.requested] at hrequest

/-- A frame of `engine_send` is read out by every process but the writer, and by the writer too when
it is the gateway. Assumes: the bound on the number of components that `create` checks. -/
theorem shouldRead_of_engineRecord (hsize : m < maxComponents) {p : Fin (m + 1)}
    {record : SlotRecord} (h : EngineRecord p record) (i : Fin (m + 1)) :
    shouldRead i record = true ↔ i ≠ p ∨ p = gatewaySlot := by
  have hi : (i : ℕ) < 100 := lt_of_lt_of_le i.isLt hsize
  have hboth : ((deliverToComponents ||| deliverToGateway) &&& deliverToComponents != 0) = true ∧
      ((deliverToComponents ||| deliverToGateway) &&& deliverToGateway != 0) = true ∧
      (deliverToComponents &&& deliverToComponents != 0) = true := by decide
  obtain ⟨htoComponents, htoGateway, honly⟩ := hboth
  by_cases hp : p = gatewaySlot
  · have hne : (gatewayWriter != (i : ℕ)) = true := by
      simp only [gatewayWriter, bne_iff_ne]
      omega
    have hflags : record.flags = deliverToComponents := h.flags.trans (if_pos hp)
    have hwriter : record.writerSlot = gatewayWriter := h.writerSlot.trans (if_pos hp)
    simp only [shouldRead, hflags, hwriter, honly, hne, Bool.and_true, Bool.or_true, hp, or_true]
  · have hflags : record.flags = deliverToComponents ||| deliverToGateway :=
      h.flags.trans (if_neg hp)
    have hwriter : record.writerSlot = p := h.writerSlot.trans (if_neg hp)
    simp only [shouldRead, hflags, hwriter, htoComponents, htoGateway, Bool.and_true,
      Bool.true_and, Bool.or_eq_true, decide_eq_true_eq, bne_iff_ne, hp, or_false]
    constructor
    · rintro (hgateway | hother) hip
      · exact hp (hip.symm.trans hgateway)
      · exact hother (congrArg Fin.val hip.symm)
    · intro hip
      exact Or.inr fun hval ↦ hip (Fin.ext hval.symm)

/-- What a process reads out of a frame of `engine_send`. -/
theorem readOut_of_engineRecord (hsize : m < maxComponents) {p : Fin (m + 1)} {record : SlotRecord}
    (h : EngineRecord p record) (i : Fin (m + 1)) (seq : ℕ) :
    readOut i seq record = if i ≠ p ∨ p = gatewaySlot then [⟨seq, record.bytes⟩] else [] := by
  have hread := shouldRead_of_engineRecord hsize h i
  rw [readOut, List.take_of_length_le h.short]
  split_ifs with hshould hwho hwho
  · rw [handedOn, if_neg h.nonempty]
  · exact absurd (hread.mp hshould) hwho
  · exact absurd (hread.mpr hwho) hshould
  · rfl

/-! ### Who gets a frame -/

/-- The calls of the handler of process `i` for the frame of sequence number `seq`. -/
def handledOf (s : System m τ) (i : Fin (m + 1)) (seq : ℕ) : List Delivery :=
  (s.history.handled i).filter fun delivery ↦ delivery.seq = seq

/-- The receive thread of process `i` is done with the frame of sequence number `seq`. -/
def DoneWith (s : System m τ) (i : Fin (m + 1)) (seq : ℕ) : Prop :=
  seq < s.region.readSeq i ∧ ∀ delivery ∈ inTransit (s.readers i), delivery.seq ≠ seq

theorem seq_of_mem_readOut {i : Fin (m + 1)} {seq : ℕ} {record : SlotRecord} {delivery : Delivery}
    (hmem : delivery ∈ readOut i seq record) : delivery.seq = seq := by
  unfold readOut at hmem
  split_ifs at hmem
  · simp only [handedOn] at hmem
    split_ifs at hmem
    · cases hmem
    · rw [List.mem_singleton.mp hmem]
  · cases hmem

theorem filter_readOut (i : Fin (m + 1)) (seq wanted : ℕ) (record : SlotRecord) :
    (readOut i seq record).filter (fun delivery ↦ delivery.seq = wanted) =
      if seq = wanted then readOut i seq record else [] := by
  split_ifs with hseq
  · refine List.filter_eq_self.mpr fun delivery hmem ↦ ?_
    rw [seq_of_mem_readOut hmem, decide_eq_true_iff]
    exact hseq
  · refine List.filter_eq_nil_iff.mpr fun delivery hmem ↦ ?_
    rw [seq_of_mem_readOut hmem, decide_eq_true_iff]
    exact hseq

theorem numbered_concat (written : List (Fin (m + 1) × SlotRecord))
    (write : Fin (m + 1) × SlotRecord) :
    numbered (written ++ [write]) = numbered written ++ [(written.length, write.2)] := by
  rw [numbered, List.mapIdx_concat, numbered]

/-- A process that has consumed some writes read each of them out under its own number. -/
theorem filter_readOut_numbered (i : Fin (m + 1)) (wanted : ℕ)
    (written : List (Fin (m + 1) × SlotRecord)) :
    ((numbered written).flatMap fun seen ↦ readOut i seen.1 seen.2).filter
        (fun delivery ↦ delivery.seq = wanted) =
      (written[wanted]?).elim [] fun write ↦ readOut i wanted write.2 := by
  induction written using List.reverseRecOn with
  | nil => rfl
  | append_singleton written write ih =>
    rw [numbered_concat, List.flatMap_append, List.filter_append, ih, List.flatMap_singleton,
      filter_readOut]
    rcases lt_trichotomy wanted written.length with hlt | heq | hgt
    · rw [if_neg (by omega), List.append_nil, List.getElem?_append_left hlt]
    · rw [if_pos heq.symm, List.getElem?_eq_none_iff.mpr heq.ge,
        List.getElem?_append_right heq.ge, heq, Nat.sub_self]
      rfl
    · have hlength : (written ++ [write]).length ≤ wanted := by
        rw [List.length_append, List.length_singleton]
        omega
      rw [if_neg (by omega), List.getElem?_eq_none_iff.mpr hgt.le,
        List.getElem?_eq_none_iff.mpr hlength]
      rfl

section Sets

variable [Fintype τ] {s : System m τ} {seq : ℕ} {p : Fin (m + 1)} {record : SlotRecord}

omit [DecidableEq τ] in
/-- What the handler of a process got of a frame, with what is on its way there. -/
theorem Carried.handledOf_append (hcarried : Carried s) (h : Accounted s)
    (hwrite : s.history.written[seq]? = some (p, record)) (i : Fin (m + 1)) :
    handledOf s i seq ++ (inTransit (s.readers i)).filter (fun delivery ↦ delivery.seq = seq) =
      if seq < s.region.readSeq i then readOut i seq record else [] := by
  rw [handledOf, ← List.filter_append, hcarried i, h.consumed i, filter_readOut_numbered,
    List.getElem?_take]
  split_ifs
  · rw [hwrite]
    rfl
  · rfl

omit [DecidableEq τ] in
/-- At any time a handler got of a frame at most what its process reads out. -/
theorem Carried.handledOf_prefix (hcarried : Carried s) (h : Accounted s)
    (hwrite : s.history.written[seq]? = some (p, record)) (i : Fin (m + 1)) :
    handledOf s i seq <+: readOut i seq record := by
  have hall := hcarried.handledOf_append h hwrite i
  have hstart := List.prefix_append (handledOf s i seq)
    ((inTransit (s.readers i)).filter fun delivery ↦ delivery.seq = seq)
  rw [hall] at hstart
  split_ifs at hstart
  · exact hstart
  · exact hstart.trans (List.nil_prefix)

omit [DecidableEq τ] in
/-- Once a process is done with a frame its handler got what the process reads out. -/
theorem Carried.handledOf_eq (hcarried : Carried s) (h : Accounted s)
    (hwrite : s.history.written[seq]? = some (p, record)) {i : Fin (m + 1)}
    (hdone : DoneWith s i seq) : handledOf s i seq = readOut i seq record := by
  have hall := hcarried.handledOf_append h hwrite i
  have hnone : (inTransit (s.readers i)).filter (fun delivery ↦ delivery.seq = seq) = [] :=
    List.filter_eq_nil_iff.mpr fun delivery hmem ↦ by simpa using hdone.2 delivery hmem
  rwa [hnone, List.append_nil, if_pos hdone.1] at hall

/-- The handler of every process but the writer got the frame once, the handler of the writer not
at all. -/
def DeliveredToOthers (s : System m τ) (seq : ℕ) (p : Fin (m + 1)) (record : SlotRecord) : Prop :=
  ∀ i, handledOf s i seq = if i = p then [] else [⟨seq, record.bytes⟩]

/-- The delivery set of a frame. Assumes: a run in which all processes attach first, none closes and
all writes come from `engine_send`, with fewer than `2 ^ 64` frames and no more components than the
region has room for. At any time a handler got a frame at most once, and the handler of the writer
got it only if the writer is the gateway; once all are done with the frame, it was delivered to the
others and not to the writer exactly when the writer is a component. -/
theorem delivery_set (hsize : m < maxComponents) (hrun : Reaches step Broadcasts (create m τ) s)
    (hbound : s.history.written.length < 2 ^ 64)
    (hwrite : s.history.written[seq]? = some (p, record)) :
    (∀ i, handledOf s i seq <+: if i ≠ p ∨ p = gatewaySlot then [⟨seq, record.bytes⟩] else []) ∧
      ((∀ i, DoneWith s i seq) →
        (∀ i, handledOf s i seq = if i ≠ p ∨ p = gatewaySlot then [⟨seq, record.bytes⟩] else []) ∧
          (DeliveredToOthers s seq p record ↔ p ≠ gatewaySlot)) := by
  have hcarried := carried_of_reaches hrun
  have h := Steady.accounted (hrun.mono fun _ _ hguard ↦ hguard.1) hbound
  have hsent := allSentByEngine_of_reaches (hrun.mono fun _ _ hguard ↦ hguard.2)
  have hrecord : EngineRecord p record := hsent.1 _ (List.mem_of_getElem? hwrite)
  have hread : ∀ i, readOut i seq record =
      if i ≠ p ∨ p = gatewaySlot then [⟨seq, record.bytes⟩] else [] :=
    fun i ↦ readOut_of_engineRecord hsize hrecord i seq
  refine ⟨fun i ↦ ?_, fun hdone ↦ ?_⟩
  · rw [← hread]
    exact hcarried.handledOf_prefix h hwrite i
  · have hhandled : ∀ i, handledOf s i seq =
        if i ≠ p ∨ p = gatewaySlot then [⟨seq, record.bytes⟩] else [] := by
      intro i
      rw [hcarried.handledOf_eq h hwrite (hdone i), hread]
    refine ⟨hhandled, ?_, fun hp i ↦ ?_⟩
    · rintro hothers rfl
      have hown := hothers gatewaySlot
      rw [hhandled gatewaySlot, if_pos (Or.inr rfl), if_pos rfl] at hown
      cases hown
    · rw [hhandled i]
      by_cases hi : i = p
      · rw [if_neg (by simp [hi, hp]), if_pos hi]
      · rw [if_pos (Or.inl hi), if_neg hi]

end Sets

/-- A component and the gateway attach, one of them writes a frame, and both take it out of the
ring. -/
def oneFrameActions (p : Fin 2) (request : WriteRequest) : List (Action 1 Unit) :=
  List.replicate 3 (Action.engineInit gatewaySlot) ++
  List.replicate 3 (Action.engineInit (Fin.last 1)) ++
  [Action.startReceiving gatewaySlot, Action.startReceiving (Fin.last 1),
    Action.callWriteSlot () p request] ++
  List.replicate 6 (Action.writeSlot ()) ++ List.replicate 7 (Action.receive gatewaySlot) ++
  List.replicate 7 (Action.receive (Fin.last 1))

/-- The gateway writes a frame, and its own handler gets it as well. -/
theorem gateway_hears_itself :
    ∃ s record, Reaches step Broadcasts (create 1 Unit) s ∧
      s.history.written[0]? = some (gatewaySlot, record) ∧ (∀ i, DoneWith s i 0) ∧
      handledOf s gatewaySlot 0 = [⟨0, record.bytes⟩] ∧
      ¬DeliveredToOthers s 0 gatewaySlot record := by
  have hrun : (run step Broadcasts (create 1 Unit)
      (oneFrameActions gatewaySlot (threeBytes gatewayWriter deliverToComponents) ++
        [.receive (Fin.last 1)])).map (fun s ↦
        (s.history.written, s.history.handled gatewaySlot, s.readers, s.region.readSeq)) = some
          ([(gatewaySlot, ⟨gatewayWriter, deliverToComponents, 3, [1, 2, 3]⟩)], [⟨0, [1, 2, 3]⟩],
            fun _ ↦ .loopTest, fun _ ↦ 1) := by decide +kernel
  obtain ⟨s, hs, hfields⟩ := Option.map_eq_some_iff.mp hrun
  obtain ⟨hwritten, hfields⟩ := Prod.mk.inj hfields
  obtain ⟨hhandled, hfields⟩ := Prod.mk.inj hfields
  obtain ⟨hreaders, hreadSeq⟩ := Prod.mk.inj hfields
  have hgateway : handledOf s gatewaySlot 0 = [⟨0, [1, 2, 3]⟩] := by
    rw [handledOf, hhandled]
    rfl
  refine ⟨s, _, reaches_of_run _ hs, by rw [hwritten]; rfl, fun i ↦ ⟨?_, fun delivery hmem ↦ ?_⟩,
    hgateway, fun hothers ↦ ?_⟩
  · rw [hreadSeq]
    exact Nat.one_pos
  · rw [hreaders] at hmem
    exact absurd hmem List.not_mem_nil
  · have hown := hothers gatewaySlot
    rw [hgateway, if_pos rfl] at hown
    cases hown

/-- A component writes a frame. -/
theorem delivery_set_oneFrame :
    ∃ s record, run step Broadcasts (create 1 Unit) (oneFrameActions (Fin.last 1)
        (threeBytes 1 (deliverToComponents ||| deliverToGateway))) = some s ∧
      s.history.written[0]? = some (Fin.last 1, record) ∧
      DeliveredToOthers s 0 (Fin.last 1) record := by
  have hrun : (run step Broadcasts (create 1 Unit) (oneFrameActions (Fin.last 1)
      (threeBytes 1 (deliverToComponents ||| deliverToGateway)))).map (fun s ↦
        (s.history.written, s.readers, s.region.readSeq)) = some
          ([(Fin.last 1, ⟨1, deliverToComponents ||| deliverToGateway, 3, [1, 2, 3]⟩)],
            Function.update (fun _ ↦ .loopTest) (Fin.last 1) .waitPending, fun _ ↦ 1) := by
    decide +kernel
  obtain ⟨s, hs, hfields⟩ := Option.map_eq_some_iff.mp hrun
  obtain ⟨hwritten, hfields⟩ := Prod.mk.inj hfields
  obtain ⟨hreaders, hreadSeq⟩ := Prod.mk.inj hfields
  have hwrite : s.history.written[0]? =
      some (Fin.last 1, ⟨1, deliverToComponents ||| deliverToGateway, 3, [1, 2, 3]⟩) := by
    rw [hwritten]
    rfl
  have hdone : ∀ i, DoneWith s i 0 := by
    intro i
    refine ⟨by rw [hreadSeq]; exact Nat.one_pos, fun delivery hmem ↦ ?_⟩
    rw [hreaders] at hmem
    by_cases hi : i = Fin.last 1
    · rw [hi, Function.update_self] at hmem
      exact absurd hmem List.not_mem_nil
    · rw [Function.update_of_ne hi] at hmem
      exact absurd hmem List.not_mem_nil
  obtain ⟨-, hafter⟩ := delivery_set (by decide) (reaches_of_run _ hs) (by rw [hwritten]; decide)
    hwrite
  exact ⟨s, _, hs, hwrite, (hafter hdone).2.mpr (by decide)⟩

end VehicleComm.SharedMemory
