import VehicleComm.Library.KeyedList
import VehicleComm.Traffic.Messages

/-!
# What gateways forward

A gateway puts a frame of its ring on the segment only if a component of the vehicle sent it to
everybody, and each such frame once; a frame of the network it writes into its ring once, unchanged,
and no gateway puts it back. So the frames on the segment are at most as many as were sent, and as
many when the gateways are done (`forwards_once`).

This needs more than a buffer for each frame. `sendto` has to take the frame, and the second NIC has
to be there: a gateway that handles a frame of its ring before its constructor has created the
second NIC does not forward it, though it has the buffer and `sendto` would take the copy
(`forwards_not`).
-/

set_option autoImplicit false
set_option relaxedAutoImplicit false

namespace VehicleComm.Traffic

open Library Network Channel SharedMemory

variable {V : Type*} {m : ℕ} {τ : Type*} {mac : V → Address} {constructed : Prop} {F : Fleet V m τ}

/-! ### Frames to everybody -/

def isSent : Cause → Bool
  | .sent _ _ => true
  | .forwarded _ _ => false

def isBroadcast : Cause → Bool
  | .sent request _ => request.dst.paddr = .broadcast
  | .forwarded _ _ => false

/-- The event is a send that is to reach the network: of a gateway through its raw socket, or of a
component to everybody. -/
def isOriginal : Event → Bool
  | .transmitted .shm _ _ cause => isBroadcast cause
  | .transmitted .raw _ _ cause => isSent cause
  | _ => false

/-- A frame that a process sent on the ring to everybody is one of a component, and a gateway
forwards it. -/
theorem Fleet.Sound.due_of_isBroadcast (h : F.Sound mac constructed) {v : V} {entry : RingEntry m}
    (hentry : entry ∈ F.ring v) (hbroadcast : isBroadcast entry.cause = true) :
    entry.writer ≠ gatewaySlot ∧ forwardsToNetwork entry.record.bytes = true ∧
      Framed entry.record.bytes ∧ Propagated .shm entry.record.bytes := by
  have hshown := (h.ring v entry hentry).shown
  cases hcause : entry.cause with
  | forwarded i reading =>
    rw [hcause] at hbroadcast
    cases hbroadcast
  | sent request found =>
    rw [hcause] at hshown hbroadcast
    obtain ⟨-, houtgoing, -⟩ := hshown
    have hdst : request.dst.paddr = .broadcast := of_decide_eq_true hbroadcast
    obtain ⟨hetherDst, hetherSrc, -⟩ := fields_of_etherHeader houtgoing.header
    refine ⟨fun hwriter ↦ ?_, ?_, framed_of_header houtgoing.packet.whole houtgoing.header,
      houtgoing.packet.whole, fun heq ↦ (by cases heq)⟩
    · have hinternal := houtgoing.ring rfl (decide_eq_true hwriter)
      rw [hdst] at hinternal
      exact absurd hinternal (by decide)
    · rw [forwardsToNetwork, hetherDst, hetherSrc, hdst]
      exact Bool.and_eq_true_iff.mpr ⟨decide_eq_true rfl, decide_eq_true rfl⟩

/-- A frame that a gateway puts on the segment out of its ring was sent to everybody by a component.
Assumes: the raw interfaces have addresses of their own. -/
theorem Fleet.Sound.isBroadcast_of_relayed (h : F.Sound mac constructed)
    (hmac : ∀ w, mac w ≠ .internal) {heard : SegmentEntry V} (hheard : heard ∈ F.segment) {seq : ℕ}
    {reading : UInt8} (hcause : heard.cause = .forwarded seq reading) :
    ∃ origin, (F.ring heard.vehicle)[seq]? = some origin ∧ origin.writer ≠ gatewaySlot ∧
      isBroadcast origin.cause = true := by
  obtain ⟨origin, request, found, horigin, hsent, hforwards, -, -⟩ :=
    h.relayed_origin hmac hheard hcause
  have hin := List.mem_of_getElem? horigin
  have hshown := (h.ring heard.vehicle origin hin).shown
  rw [hsent] at hshown
  obtain ⟨hetherDst, -, -⟩ := fields_of_etherHeader hshown.2.1.header
  have hbroadcast : isBroadcast origin.cause = true := by
    simp only [forwardsToNetwork, Bool.and_eq_true, decide_eq_true_eq] at hforwards
    rw [hsent]
    exact decide_eq_true (Address.eq_of_octets (hetherDst.symm.trans hforwards.2))
  exact ⟨origin, horigin, (h.due_of_isBroadcast hin hbroadcast).1, hbroadcast⟩

/-! ### How often a frame was forwarded -/

section Counts

variable [DecidableEq V]

/-- How often the gateway of a vehicle put frame `seq` of its ring on the segment. -/
def Fleet.timesRelayed (F : Fleet V m τ) (v : V) (seq : ℕ) : ℕ :=
  F.segment.countP fun heard ↦ heard.vehicle = v ∧ forwardedSource heard.cause = some seq

/-- How often the gateway of a vehicle wrote frame `i` of the segment into its ring. -/
def Fleet.timesInjected (F : Fleet V m τ) (w : V) (i : ℕ) : ℕ :=
  (F.ring w).countP fun entry ↦ forwardedSource entry.cause = some i

theorem Fleet.Traced.timesRelayed (h : F.Traced) (v : V) (seq : ℕ) :
    F.timesRelayed v seq = (forwardsOf .shm (F.shown v gatewaySlot)).count seq := by
  rw [← filterMap_causesOf, Medium.other, ← h.segment v, List.count_filterMap, List.countP_map,
    List.countP_filter, Fleet.timesRelayed]
  refine List.countP_congr fun heard _ ↦ ?_
  simp [and_comm]

theorem Fleet.Traced.timesInjected (h : F.Traced) (hsound : F.Sound mac constructed) (w : V)
    (i : ℕ) :
    F.timesInjected w i = (forwardsOf .raw (F.shown w gatewaySlot)).count i := by
  rw [← filterMap_causesOf, Medium.other, ← h.ring w gatewaySlot, List.count_filterMap,
    List.countP_map, List.countP_filter, Fleet.timesInjected]
  refine List.countP_congr fun entry hentry ↦ ?_
  cases hcause : entry.cause with
  | sent request found => simp [forwardedSource, hcause]
  | forwarded source reading =>
    simp [forwardedSource, hcause, (hsound.ring w entry hentry).relayed source reading hcause]

/-- The gateway has been handed a frame of its ring and is past the forward. -/
def Fleet.PastForward (F : Fleet V m τ) (v : V) (seq : ℕ) : Prop :=
  ∃ incoming ∈ F.handed v gatewaySlot .shm, incoming.source = seq ∧
    ((F.process v gatewaySlot).receiver .shm).unforwarded ≠ some incoming

/-- The gateways are past the forward of all frames that were sent to everybody. -/
def Fleet.Settled (F : Fleet V m τ) : Prop :=
  ∀ v seq entry, (F.ring v)[seq]? = some entry → isBroadcast entry.cause = true →
    F.PastForward v seq

/-- The number of sends that are to reach the network. -/
def Fleet.originals [Fintype V] (F : Fleet V m τ) : ℕ :=
  ∑ v, ∑ p, (F.shown v p).countP isOriginal

/-- What the gateways forward. A frame of the ring is put on the segment at most once, and once when
it was sent to everybody and the gateway is past the forward; only frames that a component of the
vehicle sent to everybody are. A frame of the segment is written into a ring at most once, and once
when it is one of data that the gateway accepted and is past the forward of; it is written
unchanged, and never if it is one of the time synchronisation, which no application gets either.
There are never more frames on the segment than were sent, and when all is forwarded as many. -/
structure Fleet.ForwardsOnce [Fintype V] (F : Fleet V m τ) : Prop where
  relayed_once : ∀ v seq, F.timesRelayed v seq ≤ 1
  relayed : ∀ v seq entry, (F.ring v)[seq]? = some entry → isBroadcast entry.cause = true →
    F.PastForward v seq → F.timesRelayed v seq = 1
  origin : ∀ heard ∈ F.segment, ∀ seq reading, heard.cause = .forwarded seq reading →
    ∃ origin, (F.ring heard.vehicle)[seq]? = some origin ∧ origin.writer ≠ gatewaySlot ∧
      isBroadcast origin.cause = true
  injected_once : ∀ w i, F.timesInjected w i ≤ 1
  injected : ∀ w incoming reading, .accepted .raw incoming reading ∈ F.shown w gatewaySlot →
    isSptp incoming.data = false →
      ((F.process w gatewaySlot).receiver .raw).unforwarded ≠ some incoming →
        F.timesInjected w incoming.source = 1
  unchanged : ∀ w, ∀ entry ∈ F.ring w, ∀ i reading, entry.cause = .forwarded i reading →
    ∃ heard, F.segment[i]? = some heard ∧ entry.record.bytes = heard.bytes ∧
      isSptp heard.bytes = false
  unobserved : ∀ v p incoming, (F.process v p).Obtained (F.shown v p) .raw incoming →
    isSptp incoming.data = false
  bounded : F.segment.length ≤ F.originals
  settled : F.Settled → F.segment.length = F.originals

/-! ### Frames and sends -/

/-- Every frame was sent or forwarded. -/
theorem length_causes (causes : List Cause) :
    causes.length = (causes.filterMap forwardedSource).length + causes.countP isSent := by
  induction causes with
  | nil => rfl
  | cons cause rest ih =>
    cases cause with
    | sent request found =>
      rw [List.filterMap_cons_none rfl, List.countP_cons_of_pos rfl, List.length_cons, ih]
      omega
    | forwarded source reading =>
      have hsome : forwardedSource (.forwarded source reading) = some source := rfl
      rw [List.filterMap_cons_some hsome, List.countP_cons_of_neg (by simp [isSent]),
        List.length_cons, List.length_cons, ih]
      omega

theorem countP_isOriginal (events : List Event) :
    events.countP isOriginal =
      (causesOf .shm events).countP isBroadcast + (causesOf .raw events).countP isSent := by
  induction events with
  | nil => rfl
  | cons event rest ih =>
    have hcons : ∀ n, causesOf n (event :: rest) = causesOf n [event] ++ causesOf n rest := fun n ↦
      List.filterMap_append (l := [event])
    have hone : (if isOriginal event = true then 1 else 0) =
        (causesOf .shm [event]).countP isBroadcast + (causesOf .raw [event]).countP isSent := by
      cases event with
      | transmitted n bytes reading cause =>
        cases n with
        | shm =>
          show (if isBroadcast cause = true then 1 else 0) = [cause].countP isBroadcast + 0
          simp [List.countP_cons]
        | raw =>
          show (if isSent cause = true then 1 else 0) = 0 + [cause].countP isSent
          simp [List.countP_cons]
      | _ => rfl
    rw [List.countP_cons, ih, hone, hcons, hcons, List.countP_append, List.countP_append]
    omega

/-- The frames of the segment are those that the gateways forwarded and sent. -/
theorem Fleet.Traced.length_segment [Fintype V] (h : F.Traced) :
    F.segment.length = ∑ v, ((forwardsOf .shm (F.shown v gatewaySlot)).length +
      (causesOf .raw (F.shown v gatewaySlot)).countP isSent) := by
  rw [← sum_length_filter SegmentEntry.vehicle F.segment]
  refine Finset.sum_congr rfl fun v _ ↦ ?_
  rw [← filterMap_causesOf, Medium.other, ← length_causes, ← h.segment v, List.length_map]

/-- The sends that are to reach the network are those to everybody on the rings, and those of the
gateways. -/
theorem Fleet.Traced.originals [Fintype V] (h : F.Traced) :
    F.originals = ∑ v, ((F.ring v).countP (fun entry ↦ isBroadcast entry.cause) +
      (causesOf .raw (F.shown v gatewaySlot)).countP isSent) := by
  refine Finset.sum_congr rfl fun v _ ↦ ?_
  have hring : ∑ p, (causesOf .shm (F.shown v p)).countP isBroadcast =
      (F.ring v).countP fun entry ↦ isBroadcast entry.cause := by
    rw [List.countP_eq_length_filter, ← sum_length_filter RingEntry.writer]
    refine Finset.sum_congr rfl fun p _ ↦ ?_
    rw [← h.ring v p, List.countP_map, List.countP_filter, List.filter_filter,
      ← List.countP_eq_length_filter]
    refine List.countP_congr fun entry _ ↦ ?_
    simp [and_comm]
  have hraw : ∑ p, (causesOf .raw (F.shown v p)).countP isSent =
      (causesOf .raw (F.shown v gatewaySlot)).countP isSent := by
    refine Finset.sum_eq_single gatewaySlot (fun p _ hp ↦ ?_) fun hnot ↦ ?_
    · rw [h.component v p hp, List.countP_nil]
    · exact absurd (Finset.mem_univ _) hnot
  rw [Finset.sum_congr rfl fun p _ ↦ countP_isOriginal (F.shown v p), Finset.sum_add_distrib, hring,
    hraw]

/-- The frames of its ring that a gateway forwarded are among those sent to everybody. -/
theorem Fleet.Sound.forwardsOf_subset (h : F.Sound mac constructed) (htraced : F.Traced)
    (hmac : ∀ w, mac w ≠ .internal) (v : V) :
    forwardsOf .shm (F.shown v gatewaySlot) ⊆
      (F.ring v).findIdxs fun entry ↦ isBroadcast entry.cause := by
  intro seq hseq
  rw [← filterMap_causesOf, Medium.other, ← htraced.segment v] at hseq
  obtain ⟨cause, hcause, hsource⟩ := List.mem_filterMap.mp hseq
  obtain ⟨heard, hheard, rfl⟩ := List.mem_map.mp hcause
  obtain ⟨hin, hvehicle⟩ := List.mem_filter.mp hheard
  obtain rfl : heard.vehicle = v := of_decide_eq_true hvehicle
  cases hforwarded : heard.cause with
  | sent request found =>
    rw [hforwarded] at hsource
    cases hsource
  | forwarded source reading =>
    rw [hforwarded] at hsource
    obtain rfl : source = seq := Option.some.inj hsource
    obtain ⟨origin, horigin, -, hbroadcast⟩ := h.isBroadcast_of_relayed hmac hin hforwarded
    obtain ⟨hlt, rfl⟩ := List.getElem?_eq_some_iff.mp horigin
    exact List.mem_findIdxs_iff_exists_getElem_pos.mpr ⟨hlt, hbroadcast⟩

end Counts

/-- A frame that an application got from the network is not one of the time synchronisation. -/
theorem Fleet.Sound.isSptp_of_obtained (h : F.Sound mac constructed) {v : V} {p : Fin (m + 1)}
    {incoming : Incoming} (hobtained : (F.process v p).Obtained (F.shown v p) .raw incoming) :
    isSptp incoming.data = false := by
  rcases hobtained with ⟨held, message, hin, rfl⟩ | ⟨held, hin, rfl⟩ |
    ⟨held, capacity, message, hin, rfl⟩
  · exact (h.shown v p _ hin).2.1.kind rfl
  · have hqueued : (Medium.raw, held.b) ∈ (F.process v p).holdings (.queue .raw) :=
      List.mem_map_of_mem (f := fun entry : Held ↦ (Medium.raw, entry.b)) hin
    have hclaim := (h.process v p).governed.sound (.queue .raw) _ hqueued
    exact (hclaim held hin rfl).2.2.kind rfl
  · exact (h.shown v p _ hin).2.1.kind rfl

/-! ### Runs in which everything is forwarded -/

/-- The pools of a gateway have a buffer for a frame to everybody that it takes off the ring, and
for the copy of a frame that is due on the other side. -/
def Roomy (P : Process τ) : ProcessAction τ → Prop
  | .receive n _ =>
    match P.receiver n with
    | .handler incoming => n = .shm → P.gateway = true →
      forwardsToNetwork incoming.data = true → (P.nic .shm).freeList ≠ []
    | .update incoming _ _ => P.Due n incoming.data → (P.nic n.other).freeList ≠ []
    | _ => True
  | _ => True

/-- A frame of the ring that is due on the segment finds the second NIC. -/
def SocketFirst (P : Process τ) : ProcessAction τ → Prop
  | .receive n _ =>
    match P.receiver n with
    | .update incoming _ _ => n = .shm → P.Due .shm incoming.data → P.stage ≠ .shmAttached
    | _ => True
  | _ => True

/-- `sendto` takes the frames that it is given. -/
def EngineTakes (_ : Process τ) : ProcessAction τ → Prop
  | .sendFails _ | .forwardFails => False
  | _ => True

/-- The pools have buffers, and the engine takes what it is given. -/
def Passable (P : Process τ) (action : ProcessAction τ) : Prop :=
  Roomy P action ∧ EngineTakes P action

/-- The pools have buffers and the second NIC is there when they are needed, and the engine takes
what it is given. -/
def Provided (P : Process τ) (action : ProcessAction τ) : Prop :=
  Passable P action ∧ SocketFirst P action

section Runs

variable [DecidableEq V] [DecidableEq τ]
  {buffers : V → Fin (m + 1) → Medium → Fin bufferSize → Buffer}

/-- A gateway takes every frame to everybody off its ring. -/
theorem takesAll_of_provided
    (hrun : Reaches Fleet.step (Everywhere Provided) (Fleet.create mac buffers) F) (v : V) :
    (F.process v gatewaySlot).TakesAll (fun data ↦ forwardsToNetwork data = true)
      (F.handed v gatewaySlot) (F.shown v gatewaySlot) := by
  have hall : (F.process v gatewaySlot).gateway = true →
      (F.process v gatewaySlot).TakesAll (fun data ↦ forwardsToNetwork data = true)
        (F.handed v gatewaySlot) (F.shown v gatewaySlot) := by
    refine Fleet.forall_of_reaches (Q := fun P handed events ↦ P.gateway = true →
        P.TakesAll (fun data ↦ forwardsToNetwork data = true) handed events)
      (fun _ _ _ _ _ hin ↦ absurd hin List.not_mem_nil) ?_ hrun v gatewaySlot
    intro P P' handed events action event address arrived hguard hsound hledger hstep htakes hrole
    rw [(Process.role_step hstep).1] at hrole
    refine (htakes hrole).step hsound (fun gps incoming haction hphase hwanted ↦ ?_) hstep
    subst haction
    have hroomy := hguard.1.1
    simp only [Roomy, hphase] at hroomy
    exact hroomy trivial hrole hwanted
  have h : F.Sound mac False := Fleet.sound_of_reaches (fun _ _ _ hfalse ↦ hfalse.elim) hrun
  exact hall (h.role v gatewaySlot)

/-- A process forwards every frame that is due on the other side. -/
theorem forwardsAll_of_provided
    (hrun : Reaches Fleet.step (Everywhere Provided) (Fleet.create mac buffers) F) (v : V)
    (p : Fin (m + 1)) : (F.process v p).ForwardsAll (fun _ _ ↦ True) (F.shown v p) := by
  refine Fleet.forall_of_reaches (Q := fun P _ events ↦ P.ForwardsAll (fun _ _ ↦ True) events)
    (fun _ _ _ _ _ _ hin ↦ absurd hin List.not_mem_nil) ?_ hrun v p
  intro P P' handed events action event address arrived hguard hsound hledger hstep hforwards
  refine hforwards.step hledger hsound
    (fun n gps incoming reading b haction hphase _ hdue ↦ ?_)
    (fun incoming under b copy reading haction _ _ ↦ ?_) hstep
  case refine_2 =>
    subst haction
    exact hguard.1.2
  subst haction
  obtain ⟨⟨hroomy, -⟩, hsocket⟩ := hguard
  simp only [Roomy, hphase] at hroomy
  simp only [SocketFirst, hphase] at hsocket
  refine ⟨hroomy hdue, fun hn ↦ ?_⟩
  subst hn
  exact hsocket rfl hdue

/-- A gateway that is past the forward of a frame to everybody has forwarded it. -/
theorem mem_forwardsOf_of_pastForward
    (hrun : Reaches Fleet.step (Everywhere Provided) (Fleet.create mac buffers) F) {v : V} {seq : ℕ}
    {entry : RingEntry m} (hentry : (F.ring v)[seq]? = some entry)
    (hbroadcast : isBroadcast entry.cause = true) (hpast : F.PastForward v seq) :
    seq ∈ forwardsOf .shm (F.shown v gatewaySlot) := by
  have h : F.Sound mac False := Fleet.sound_of_reaches (fun _ _ _ hfalse ↦ hfalse.elim) hrun
  obtain ⟨-, hforwards, hframed, hpropagated⟩ :=
    h.due_of_isBroadcast (List.mem_of_getElem? hentry) hbroadcast
  obtain ⟨incoming, hin, rfl, hunforwarded⟩ := hpast
  obtain ⟨other, hother, hdata⟩ := h.handed v gatewaySlot .shm incoming hin
  obtain rfl : entry = other := Option.some.inj (hentry.symm.trans hother)
  rw [← hdata] at hforwards hframed hpropagated
  rcases takesAll_of_provided hrun v incoming hin hforwards hframed with hwaits | ⟨reading, htaken⟩
  · rw [hwaits] at hunforwarded
    exact absurd rfl hunforwarded
  · have hdue : (F.process v gatewaySlot).Due .shm incoming.data :=
      ⟨hpropagated, fun _ ↦ ⟨h.role v gatewaySlot, hforwards⟩⟩
    exact (forwardsAll_of_provided hrun v gatewaySlot .shm incoming reading htaken trivial
      hdue).resolve_left hunforwarded

/-- What gateways forward. Assumes: no raw interface has the internal address, and a run in which a
pool always has a buffer for a frame that is to be forwarded, `sendto` takes every frame that it is
given, and the second NIC is there when a frame of the ring is to be forwarded. A frame of a
component to everybody is put on the segment once, by its own gateway, a frame of the network is
written into a ring once, unchanged, and never put back, and what is on the segment is counted by
what was sent. -/
theorem forwards_once [Fintype V] (hmac : ∀ w, mac w ≠ .internal)
    (hrun : Reaches Fleet.step (Everywhere Provided) (Fleet.create mac buffers) F) :
    F.ForwardsOnce := by
  have h : F.Sound mac False := Fleet.sound_of_reaches (fun _ _ _ hfalse ↦ hfalse.elim) hrun
  have htraced := Fleet.traced_of_reaches hrun
  have hnodup : ∀ v n, (forwardsOf n (F.shown v gatewaySlot)).Nodup := fun v n ↦
    (h.ledger v gatewaySlot).once n
  -- the frames that a gateway forwarded, against those that are due
  have hsubset := h.forwardsOf_subset htraced hmac
  constructor
  · intro v seq
    rw [htraced.timesRelayed]
    exact List.nodup_iff_count_le_one.mp (hnodup v .shm) seq
  · intro v seq entry hentry hbroadcast hpast
    rw [htraced.timesRelayed]
    exact List.count_eq_one_of_mem (hnodup v .shm)
      (mem_forwardsOf_of_pastForward hrun hentry hbroadcast hpast)
  · intro heard hheard seq reading hcause
    exact h.isBroadcast_of_relayed hmac hheard hcause
  · intro w i
    rw [htraced.timesInjected h]
    exact List.nodup_iff_count_le_one.mp (hnodup w .raw) i
  · intro w incoming reading haccepted hkind hpast
    have hin := (h.ledger w gatewaySlot).accepted .raw incoming reading haccepted
    obtain ⟨-, heard, hheard, hdata⟩ := h.handed w gatewaySlot .raw incoming hin
    have hwhole : headerSize + packetHeaderSize ≤ incoming.data.length := by
      have hsound := h.segment heard (List.mem_of_getElem? hheard)
      unfold SegmentEntry.Sound at hsound
      rw [hdata]
      exact whole_of_transmitted hsound
    have hdue : (F.process w gatewaySlot).Due .raw incoming.data :=
      ⟨⟨hwhole, fun _ ↦ hkind⟩, fun heq ↦ (by cases heq)⟩
    rw [htraced.timesInjected h]
    exact List.count_eq_one_of_mem (hnodup w .raw)
      ((forwardsAll_of_provided hrun w gatewaySlot .raw incoming reading haccepted trivial
        hdue).resolve_left hpast)
  · intro w entry hentry i reading hcause
    obtain ⟨seq, hseq⟩ := List.mem_iff_getElem?.mp hentry
    obtain ⟨heard, hheard, hbytes, hpropagated, -⟩ := h.injected_bytes hseq hcause
    exact ⟨heard, hheard, hbytes, hpropagated.kind rfl⟩
  · intro v p incoming hobtained
    exact h.isSptp_of_obtained hobtained
  · rw [htraced.length_segment, htraced.originals]
    refine Finset.sum_le_sum fun v _ ↦ Nat.add_le_add_right ?_ _
    rw [← List.length_findIdxs]
    exact ((hnodup v .shm).subperm (hsubset v)).length_le
  · intro hsettled
    rw [htraced.length_segment, htraced.originals]
    refine Finset.sum_congr rfl fun v _ ↦ congrArg (· + _) ?_
    rw [← List.length_findIdxs]
    refine ((List.perm_ext_iff_of_nodup (hnodup v .shm) List.nodup_findIdxs).mpr fun seq ↦
      ⟨fun hseq ↦ hsubset v hseq, fun hseq ↦ ?_⟩).length_eq
    obtain ⟨hlt, hbroadcast⟩ := List.mem_findIdxs_iff_exists_getElem_pos.mp hseq
    have hentry : (F.ring v)[seq]? = some (F.ring v)[seq] := List.getElem?_eq_getElem hlt
    exact mem_forwardsOf_of_pastForward hrun hentry hbroadcast (hsettled v seq _ hentry hbroadcast)

end Runs

instance (P : Process τ) (action : ProcessAction τ) : Decidable (Roomy P action) :=
  match action with
  | .receive n _ =>
    match hphase : P.receiver n with
    | .handler incoming => decidable_of_iff (n = .shm → P.gateway = true →
        forwardsToNetwork incoming.data = true → (P.nic .shm).freeList ≠ [])
          (by simp only [Roomy, hphase])
    | .update incoming _ _ => decidable_of_iff (P.Due n incoming.data →
        (P.nic n.other).freeList ≠ []) (by simp only [Roomy, hphase])
    | .idle | .forward _ _ _ _ | .notify _ _ _ | .discard _ | .freeBuffer _ =>
      isTrue (by simp only [Roomy, hphase])
  | .construct | .attach _ | .detach _ | .watch _ | .unwatch _ | .callSend _ _ | .send _ _
  | .sendFails _ | .arrive _ _ | .forwardFails | .receiveMessage _ _ _ => isTrue trivial

instance (P : Process τ) (action : ProcessAction τ) : Decidable (SocketFirst P action) :=
  match action with
  | .receive n _ =>
    match hphase : P.receiver n with
    | .update incoming _ _ => decidable_of_iff (n = .shm → P.Due .shm incoming.data →
        P.stage ≠ .shmAttached) (by simp only [SocketFirst, hphase])
    | .idle | .handler _ | .forward _ _ _ _ | .notify _ _ _ | .discard _ | .freeBuffer _ =>
      isTrue (by simp only [SocketFirst, hphase])
  | .construct | .attach _ | .detach _ | .watch _ | .unwatch _ | .callSend _ _ | .send _ _
  | .sendFails _ | .arrive _ _ | .forwardFails | .receiveMessage _ _ _ => isTrue trivial

instance (P : Process τ) (action : ProcessAction τ) : Decidable (EngineTakes P action) :=
  match action with
  | .sendFails _ | .forwardFails => isFalse id
  | .construct | .attach _ | .detach _ | .watch _ | .unwatch _ | .callSend _ _ | .send _ _
  | .arrive _ _ | .receive _ _ | .receiveMessage _ _ _ => isTrue trivial

instance (P : Process τ) (action : ProcessAction τ) : Decidable (Passable P action) :=
  inferInstanceAs (Decidable (_ ∧ _))

instance (P : Process τ) (action : ProcessAction τ) : Decidable (Provided P action) :=
  inferInstanceAs (Decidable (_ ∧ _))

/-- A greeting that goes through both gateways. -/
theorem forwards_once_greetingActions :
    ∃ F : Fleet Bool 2 Unit, run Fleet.step (Everywhere Provided) pair greetingActions = some F ∧
      F.timesRelayed false 0 = 1 ∧ F.timesInjected true 0 = 1 ∧ F.ForwardsOnce := by
  have hrun : (run Fleet.step (Everywhere Provided) pair greetingActions).map (fun F ↦
      (F.timesRelayed false 0, F.timesInjected true 0)) = some (1, 1) := by decide +kernel
  obtain ⟨F, hF, hends⟩ := Option.map_eq_some_iff.mp hrun
  obtain ⟨hrelayed, hinjected⟩ := Prod.mk.inj hends
  exact ⟨F, hF, hrelayed, hinjected, forwards_once (by decide) (reaches_of_run greetingActions hF)⟩

/-- The gateway handles the frame of a component as soon as it has attached to the ring, and then
goes on with its constructor. -/
def hastyActions : List (FleetAction Bool 2 Unit) :=
  FleetAction.act false sender .construct :: sendActions false ++
    FleetAction.read false gatewaySlot 0 ::
      List.replicate 4 (FleetAction.act false gatewaySlot (.receive .shm 3)) ++
      setUpActions true ++ List.replicate 5 (FleetAction.act false gatewaySlot .construct)

set_option synthInstance.maxSize 256 in
/-- A frame of a component to everybody that its gateway was handed, and will not put on the
segment. -/
theorem forwards_not :
    (∀ w, pairMac w ≠ .internal) ∧
      ∃ F : Fleet Bool 2 Unit, Reaches Fleet.step (Everywhere Passable) pair F ∧
        (∀ v, (F.process v gatewaySlot).stage = .returned) ∧
          (∃ entry, (F.ring false)[0]? = some entry ∧ entry.writer ≠ gatewaySlot ∧
            isBroadcast entry.cause = true) ∧
              F.PastForward false 0 ∧ F.timesRelayed false 0 ≠ 1 := by
  have hrun : (run Fleet.step (Everywhere Passable) pair hastyActions).map (fun F ↦
      ((F.process false gatewaySlot).stage, (F.process true gatewaySlot).stage,
        (F.ring false).map RingEntry.cause, (F.handed false gatewaySlot .shm).map Incoming.source,
          (F.process false gatewaySlot).receiver .shm, F.timesRelayed false 0)) =
      some (.returned, .returned, [.sent greeting 0], [0], .idle, 0) := by decide +kernel
  obtain ⟨F, hF, hends⟩ := Option.map_eq_some_iff.mp hrun
  simp only [Prod.mk.injEq] at hends
  obtain ⟨hhere, hthere, hcauses, hsources, hphase, hrelayed⟩ := hends
  have hreached := reaches_of_run hastyActions hF
  have h : F.Sound pairMac False := Fleet.sound_of_reaches (fun _ _ _ hfalse ↦ hfalse.elim) hreached
  obtain ⟨entry, hring, hcause⟩ := List.map_eq_singleton_iff.mp hcauses
  obtain ⟨incoming, hhanded, hsource⟩ := List.map_eq_singleton_iff.mp hsources
  have hbroadcast : isBroadcast entry.cause = true := by
    rw [hcause]
    rfl
  have hin : entry ∈ F.ring false := by
    rw [hring]
    exact List.mem_singleton_self entry
  refine ⟨by decide, F, hreached, ?_, ⟨entry, by rw [hring]; rfl,
    (h.due_of_isBroadcast hin hbroadcast).1, hbroadcast⟩, ⟨incoming, ?_, hsource, ?_⟩, ?_⟩
  · rintro (_ | _)
    · exact hhere
    · exact hthere
  · rw [hhanded]
    exact List.mem_singleton_self incoming
  · rw [hphase]
    exact fun heq ↦ by cases heq
  · rw [hrelayed]
    exact Nat.zero_ne_one

end VehicleComm.Traffic
