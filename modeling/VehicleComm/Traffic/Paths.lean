import VehicleComm.Traffic.Messages

/-!
# The path on the ring and the path over the segment

A packet that a component writes into the ring of its vehicle reaches the other components of the
vehicle from there, and the components of another vehicle through two gateways: by its own gateway
it is put on the segment, and the gateway that accepts it writes it into its ring. On both paths the
application gets the timestamp, the port and the data that were sent, cut to the room it gives. The
MAC address differs, and so does the quadrant, which only a gateway writes (`both_paths_alike`,
`paths_differ`).

The runs are those in which the pools of the ring have a buffer for every frame with the packet and
the `Communicator` of a component listens to its port (`Admits`), so a component that is handed a
frame obtains its message. Whether a frame gets across the segment is not said: a gateway that has
no buffer does not put it there, and the segment may lose it.
-/

set_option autoImplicit false
set_option relaxedAutoImplicit false

namespace VehicleComm.Traffic

open Library Network Channel SharedMemory

variable {V : Type*} {m : ℕ} {τ : Type*} {mac : V → Address} {F : Fleet V m τ}

/-! ### Frames that no pool rejects -/

/-- The pools of a process have a buffer for a frame that is wanted, when the ring hands it over and
when it is written into the ring, and the `Communicator` of a component listens to its port. -/
def Admits (wanted : List UInt8 → Prop) (P : Process τ) : ProcessAction τ → Prop
  | .receive n _ =>
    match P.receiver n with
    | .handler incoming => n = .shm → wanted incoming.data → (P.nic .shm).freeList ≠ []
    | .update incoming _ _ => n = .raw → wanted incoming.data → (P.nic .shm).freeList ≠ []
    | .notify incoming _ _ =>
      P.gateway = false → wanted incoming.data → packetDstPort incoming.data ∈ P.observers
    | _ => True
  | _ => True

theorem Admits.mono {wanted more : List UInt8 → Prop} (hmore : ∀ data, wanted data → more data)
    {P : Process τ} {action : ProcessAction τ} (h : Admits more P action) :
    Admits wanted P action := by
  cases action with
  | receive n gps =>
    simp only [Admits] at h ⊢
    cases hphase : P.receiver n with
    | handler incoming =>
      rw [hphase] at h
      exact fun hn hwanted ↦ h hn (hmore _ hwanted)
    | update incoming reading b =>
      rw [hphase] at h
      exact fun hn hwanted ↦ h hn (hmore _ hwanted)
    | notify incoming reading b =>
      rw [hphase] at h
      exact fun hrole hwanted ↦ h hrole (hmore _ hwanted)
    | _ => exact trivial
  | _ => exact trivial

section Admitted

variable [DecidableEq V] [DecidableEq τ] {wanted : List UInt8 → Prop}
  {buffers : V → Fin (m + 1) → Medium → Fin bufferSize → Buffer}

/-- The handlers of the ring take every wanted frame. -/
theorem takesAll_of_reaches
    (hrun : Reaches Fleet.step (Everywhere (Admits wanted)) (Fleet.create mac buffers) F) (v : V)
    (p : Fin (m + 1)) : (F.process v p).TakesAll wanted (F.handed v p) (F.shown v p) := by
  refine Fleet.forall_of_reaches (Q := fun P handed events ↦ P.TakesAll wanted handed events)
    (fun _ _ _ _ hin ↦ absurd hin List.not_mem_nil) ?_ hrun v p
  intro P P' handed events action event address arrived hguard hsound hledger hstep htakes
  refine htakes.step hsound (fun gps incoming haction hphase hwanted ↦ ?_) hstep
  subst haction
  simp only [Admits, hphase] at hguard
  exact hguard trivial hwanted

/-- The gateways write every wanted frame of the network that they accept into their rings. -/
theorem forwardsAll_of_reaches
    (hrun : Reaches Fleet.step (Everywhere (Admits wanted)) (Fleet.create mac buffers) F) (v : V)
    (p : Fin (m + 1)) :
    (F.process v p).ForwardsAll (fun n data ↦ n = .raw ∧ wanted data) (F.shown v p) := by
  refine Fleet.forall_of_reaches
    (Q := fun P _ events ↦ P.ForwardsAll (fun n data ↦ n = .raw ∧ wanted data) events)
    (fun _ _ _ _ _ _ hin ↦ absurd hin List.not_mem_nil) ?_ hrun v p
  intro P P' handed events action event address arrived hguard hsound hledger hstep hforwards
  refine hforwards.step hledger hsound
    (fun n gps incoming reading b haction hphase hwanted hdue ↦ ?_)
    (fun _ _ _ _ _ _ _ hwanted ↦ by cases hwanted.1) hstep
  obtain ⟨rfl, hwanted⟩ := hwanted
  subst haction
  simp only [Admits, hphase] at hguard
  exact ⟨hguard trivial hwanted, fun heq ↦ (by cases heq)⟩

/-- The components hand every wanted frame to the application. -/
theorem notifiesAll_of_reaches
    (hrun : Reaches Fleet.step (Everywhere (Admits wanted)) (Fleet.create mac buffers) F) (v : V)
    {p : Fin (m + 1)} (hp : p ≠ gatewaySlot) :
    (F.process v p).NotifiesAll wanted (F.shown v p) := by
  have hall : (F.process v p).gateway = false →
      (F.process v p).NotifiesAll wanted (F.shown v p) := by
    refine Fleet.forall_of_reaches
      (Q := fun P _ events ↦ P.gateway = false → P.NotifiesAll wanted events)
      (fun _ _ _ _ _ _ _ hin ↦ absurd hin List.not_mem_nil) ?_ hrun v p
    intro P P' handed events action event address arrived hguard hsound hledger hstep hnotifies
      hrole
    rw [(Process.role_step hstep).1] at hrole
    refine (hnotifies hrole).step hledger hsound
      (fun n gps incoming reading b haction hphase hwanted ↦ ?_) hstep
    subst haction
    simp only [Admits, hphase] at hguard
    exact hguard hrole hwanted
  have h : F.Sound mac False := Fleet.sound_of_reaches (fun _ _ _ hfalse ↦ hfalse.elim) hrun
  exact hall (by rw [h.role]; exact decide_eq_false hp)

/-- A component that is done with a wanted frame of the ring has given it to the application. -/
theorem obtained_of_handed
    (hrun : Reaches Fleet.step (Everywhere (Admits wanted)) (Fleet.create mac buffers) F) {v : V}
    {p : Fin (m + 1)} (hp : p ≠ gatewaySlot) {incoming : Incoming}
    (hin : incoming ∈ F.handed v p .shm)
    (hdone : ((F.process v p).receiver .shm).unnotified ≠ some incoming)
    (hwanted : wanted incoming.data) (hframed : Framed incoming.data)
    (hloads : Loads incoming.data) :
    (F.process v p).Obtained (F.shown v p) .shm incoming := by
  rcases takesAll_of_reaches hrun v p incoming hin hwanted hframed with hwaits |
    ⟨reading, haccepted⟩
  · rw [hwaits] at hdone
    exact absurd rfl hdone
  · have hpropagated : Propagated .shm incoming.data := ⟨hloads.le, fun heq ↦ (by cases heq)⟩
    exact (notifiesAll_of_reaches hrun v hp .shm incoming reading haccepted hwanted hpropagated
      hloads).resolve_left hdone

end Admitted

/-! ### The two paths -/

/-- Frame `i` of the segment was put there by the gateway of `v`, as frame `seq` of its ring. -/
def Fleet.Relays (F : Fleet V m τ) (v : V) (seq i : ℕ) : Prop :=
  ∃ heard reading, F.segment[i]? = some heard ∧ heard.vehicle = v ∧
    heard.cause = .forwarded seq reading

/-- Frame `later` of the ring of `w` is frame `seq` of the ring of `v`, which came over the segment.
-/
def Fleet.Crosses (F : Fleet V m τ) (v : V) (seq : ℕ) (w : V) (later : ℕ) : Prop :=
  ∃ entry i reading, (F.ring w)[later]? = some entry ∧ entry.cause = .forwarded i reading ∧
    F.Relays v seq i

/-- What becomes of a packet that component `p` of `v` wrote into the ring as frame `seq`. On the
ring and over the segment messages have the timestamp, the port and the data of the request, as many
bytes as there is room for; on the ring they come from the internal address, over the segment from
that of the gateway. The ring offers the frame to every other process, a gateway that accepted it
and is past the forward has written it into its ring, and a component that was handed it and is past
`notify` has given it to its application. -/
structure Fleet.DeliversAlike (F : Fleet V m τ) (mac : V → Address) (v : V) (p : Fin (m + 1))
    (seq : ℕ) (request : SendRequest) : Prop where
  on_ring : ∀ q held capacity message, F.Gets v q .shm held capacity message →
    held.incoming.source = seq → ∃ quadrant, message =
      ⟨Address.internal.octets, request.fromPort, request.ts, quadrant, request.data.take capacity⟩
  over_segment : ∀ w q held capacity message, F.Gets w q .shm held capacity message →
    F.Crosses v seq w held.incoming.source → ∃ quadrant, message =
      ⟨(mac v).octets, request.fromPort, request.ts, quadrant, request.data.take capacity⟩
  offered : ∀ q ≠ p, ∃ entry, (F.ring v)[seq]? = some entry ∧ shouldRead q entry.record = true
  obtained : ∀ q ≠ gatewaySlot, ∀ incoming ∈ F.handed v q .shm, incoming.source = seq →
    ((F.process v q).receiver .shm).unnotified ≠ some incoming →
      (F.process v q).Obtained (F.shown v q) .shm incoming
  injected : ∀ w incoming reading, .accepted .raw incoming reading ∈ F.shown w gatewaySlot →
    F.Relays v seq incoming.source →
      ((F.process w gatewaySlot).receiver .raw).unforwarded ≠ some incoming →
        ∃ later, F.Crosses v seq w later
  offered_far : ∀ w (q : Fin (m + 1)) later, q ≠ gatewaySlot → F.Crosses v seq w later →
    ∃ entry, (F.ring w)[later]? = some entry ∧ shouldRead q entry.record = true
  obtained_far : ∀ w, ∀ q ≠ gatewaySlot, ∀ incoming ∈ F.handed w q .shm,
    F.Crosses v seq w incoming.source →
      ((F.process w q).receiver .shm).unnotified ≠ some incoming →
        (F.process w q).Obtained (F.shown w q) .shm incoming

variable {v : V} {seq : ℕ} {origin : RingEntry m} {request : SendRequest} {found : UInt8}

/-- A frame of the segment that came from the ring says what the frame of the ring says. -/
theorem Fleet.Relays.conveys {i : ℕ} (h : F.Relays v seq i)
    (horigin : (F.ring v)[seq]? = some origin) (hcause : origin.cause = .sent request found)
    (w : V) :
    ∃ reading, F.Conveys w .raw i request (.segment v reading) := by
  obtain ⟨heard, under, hheard, rfl, hrelayed⟩ := h
  exact ⟨heard.reading, .relayed hheard hrelayed horigin hcause⟩

theorem Fleet.Crosses.conveys {w : V} {later : ℕ} (h : F.Crosses v seq w later)
    (horigin : (F.ring v)[seq]? = some origin) (hcause : origin.cause = .sent request found) :
    ∃ reading, F.Conveys w .shm later request (.segment v reading) := by
  obtain ⟨entry, i, under, hentry, hinjected, hrelays⟩ := h
  obtain ⟨reading, hair⟩ := hrelays.conveys horigin hcause w
  exact ⟨reading, .injected hentry hinjected hair⟩

/-- A frame that arrives has a header of the library. -/
theorem Fleet.Sound.framed_of_arrived {constructed : Prop} (h : F.Sound mac constructed) {w : V}
    {q : Fin (m + 1)} {n : Medium} {incoming : Incoming} (harrived : F.Arrived w q n incoming) :
    Framed incoming.data := by
  have hsegment : ∀ heard ∈ F.segment, Framed heard.bytes := by
    intro heard hheard
    have hsound := h.segment heard hheard
    unfold SegmentEntry.Sound at hsound
    obtain ⟨dst, hheader⟩ := h.header_segment hheard
    exact framed_of_header (whole_of_transmitted hsound) hheader
  cases n with
  | raw =>
    obtain ⟨-, heard, hheard, hdata⟩ := harrived
    rw [hdata]
    exact hsegment heard (List.mem_of_getElem? hheard)
  | shm =>
    obtain ⟨entry, hentry, hdata⟩ := harrived
    rw [hdata]
    cases hcause : entry.cause with
    | sent request found =>
      have hshown := (h.ring w entry (List.mem_of_getElem? hentry)).shown
      rw [hcause] at hshown
      exact framed_of_header hshown.2.1.packet.whole hshown.2.1.header
    | forwarded i under =>
      obtain ⟨heard, hheard, hbytes, -⟩ := h.injected_bytes hentry hcause
      rw [hbytes]
      exact hsegment heard (List.mem_of_getElem? hheard)

/-- A packet that was forwarded onto a ring is there. -/
theorem Fleet.Traced.exists_injected [DecidableEq V] (h : F.Traced) {w : V} {i : ℕ}
    (hforwarded : i ∈ forwardsOf .raw (F.shown w gatewaySlot)) :
    ∃ (later : ℕ) (entry : RingEntry m) (reading : UInt8), (F.ring w)[later]? = some entry ∧
      entry.cause = .forwarded i reading := by
  rw [← filterMap_causesOf, Medium.other, ← h.ring w gatewaySlot] at hforwarded
  obtain ⟨cause, hcause, hsource⟩ := List.mem_filterMap.mp hforwarded
  obtain ⟨entry, hentry, rfl⟩ := List.mem_map.mp hcause
  obtain ⟨later, hlater⟩ := List.mem_iff_getElem?.mp (List.mem_filter.mp hentry).1
  cases hforward : entry.cause with
  | sent request found =>
    rw [hforward] at hsource
    cases hsource
  | forwarded source reading =>
    rw [hforward] at hsource
    obtain rfl : source = i := Option.some.inj hsource
    exact ⟨later, entry, reading, hlater, hforward⟩

/-- A packet of data that a process sends on its ring under a timestamp reaches the applications the
same way on the ring and over the segment. Assumes: a run in which the pools of the ring have a
buffer for every frame with the packet, the `Communicator` of a component listens to its port, and
the region has room for the components. What a gateway did not put on the segment, or did not accept
from it, is not spoken of. -/
theorem both_paths_alike [DecidableEq V] [DecidableEq τ] (hsize : m < maxComponents)
    {buffers : V → Fin (m + 1) → Medium → Fin bufferSize → Buffer}
    (hrun : Reaches Fleet.step (Everywhere (Admits (Carries request))) (Fleet.create mac buffers) F)
    (horigin : (F.ring v)[seq]? = some origin)
    (hcause : origin.cause = .sent request found) (hkind : request.kind = .data)
    (hts : request.ts ≠ 0) (hdata : request.data ≠ []) :
    F.DeliversAlike mac v origin.writer seq request := by
  have h : F.Sound mac False := Fleet.sound_of_reaches (fun _ _ _ hfalse ↦ hfalse.elim) hrun
  have hstamp : request.stamp = request.ts := if_pos hts
  have hobtained : ∀ (w : V) (q : Fin (m + 1)) route incoming, q ≠ gatewaySlot →
      incoming ∈ F.handed w q .shm → F.Conveys w .shm incoming.source request route →
        ((F.process w q).receiver .shm).unnotified ≠ some incoming →
          (F.process w q).Obtained (F.shown w q) .shm incoming := by
    intro w q route incoming hq hin hroute hdone
    have harrived := h.handed w q .shm incoming hin
    have htold := hroute.told h harrived rfl
    exact obtained_of_handed hrun hq hin hdone htold.packet (h.framed_of_arrived harrived)
      (htold.packet.loads hdata)
  have hread : ∀ w, ∀ entry ∈ F.ring w, ∀ q, q ≠ entry.writer ∨ entry.writer = gatewaySlot →
      shouldRead q entry.record = true := fun w entry hentry q ↦
    (shouldRead_of_engineRecord hsize (h.ring w entry hentry).engine q).mpr
  constructor
  · rintro q held capacity message hgets hsource
    have hroute : F.Conveys v .shm held.incoming.source request (.ring found) := by
      rw [hsource]
      exact .sent horigin hcause
    obtain ⟨hmessage, -⟩ := h.gets_of_route hgets hroute
    rw [Route.delivers, Route.address, hstamp] at hmessage
    exact ⟨_, hmessage⟩
  · intro w q held capacity message hgets hcrosses
    obtain ⟨reading, hroute⟩ := hcrosses.conveys horigin hcause
    obtain ⟨hmessage, -⟩ := h.gets_of_route hgets hroute
    rw [Route.delivers, Route.address, hstamp] at hmessage
    exact ⟨_, hmessage⟩
  · intro q hq
    exact ⟨origin, horigin, hread v origin (List.mem_of_getElem? horigin) q (Or.inl hq)⟩
  · rintro q hq incoming hin rfl hdone
    exact hobtained v q (.ring found) incoming hq hin (.sent horigin hcause) hdone
  · intro w incoming reading haccepted hrelays hpast
    obtain ⟨under, hroute⟩ := hrelays.conveys horigin hcause w
    have hin := (h.ledger w gatewaySlot).accepted .raw incoming reading haccepted
    have htold := hroute.told h (h.handed w gatewaySlot .raw incoming hin) rfl
    have hdue : (F.process w gatewaySlot).Due .raw incoming.data :=
      ⟨⟨htold.packet.whole, fun _ ↦ htold.packet.isSptp hkind⟩, fun heq ↦ (by cases heq)⟩
    have hforwarded := (forwardsAll_of_reaches hrun w gatewaySlot .raw incoming reading haccepted
      ⟨rfl, htold.packet⟩ hdue).resolve_left hpast
    obtain ⟨later, entry, other, hentry, hinjected⟩ :=
      (Fleet.traced_of_reaches hrun).exists_injected hforwarded
    exact ⟨later, entry, incoming.source, other, hentry, hinjected, hrelays⟩
  · rintro w q later hq ⟨entry, i, reading, hentry, hinjected, -⟩
    have hin := List.mem_of_getElem? hentry
    have hgateway := (h.ring w entry hin).relayed i reading hinjected
    exact ⟨entry, hentry, hread w entry hin q (Or.inr hgateway)⟩
  · intro w q hq incoming hin hcrosses hdone
    obtain ⟨reading, hroute⟩ := hcrosses.conveys horigin hcause
    exact hobtained w q _ incoming hq hin hroute hdone

instance (wanted : List UInt8 → Prop) [DecidablePred wanted] (P : Process τ)
    (action : ProcessAction τ) : Decidable (Admits wanted P action) :=
  match action with
  | .receive n _ =>
    match hphase : P.receiver n with
    | .handler incoming => decidable_of_iff (n = .shm → wanted incoming.data →
        (P.nic .shm).freeList ≠ []) (by simp only [Admits, hphase])
    | .update incoming _ _ => decidable_of_iff (n = .raw → wanted incoming.data →
        (P.nic .shm).freeList ≠ []) (by simp only [Admits, hphase])
    | .notify incoming _ _ => decidable_of_iff (P.gateway = false → wanted incoming.data →
        packetDstPort incoming.data ∈ P.observers) (by simp only [Admits, hphase])
    | .idle | .forward _ _ _ _ | .discard _ | .freeBuffer _ =>
      isTrue (by simp only [Admits, hphase])
  | .construct | .attach _ | .detach _ | .watch _ | .unwatch _ | .callSend _ _ | .send _ _
  | .sendFails _ | .arrive _ _ | .forwardFails | .receiveMessage _ _ _ => isTrue trivial

set_option synthInstance.maxSize 256 in
/-- A greeting that a component of each vehicle receives. -/
theorem exists_greeted :
    ∃ F : Fleet Bool 2 Unit, Reaches Fleet.step (Everywhere (Admits (Carries greeting))) pair F ∧
      (∃ origin, (F.ring false)[0]? = some origin ∧ origin.cause = .sent greeting 0) ∧
        (∃ held, held.incoming.source = 0 ∧
          F.Gets false listener .shm held 4 ⟨[0, 0, 0, 0, 0, 0], 5, 1, 0, [7]⟩) ∧
            ∃ held, held.incoming.source = 0 ∧
              F.Gets true listener .shm held 4 ⟨[2, 0, 0, 0, 0, 0], 5, 1, 3, [7]⟩ := by
  have hrun : (run Fleet.step (Everywhere (Admits fun _ ↦ True)) pair greetingActions).map (fun F ↦
      ((F.shown false listener).filterMap messageShown,
        (F.shown true listener).filterMap messageShown,
        (F.ring false).map RingEntry.cause)) =
      some ([(.shm, 0, 4, ⟨[0, 0, 0, 0, 0, 0], 5, 1, 0, [7]⟩)],
        [(.shm, 0, 4, ⟨[2, 0, 0, 0, 0, 0], 5, 1, 3, [7]⟩)], [.sent greeting 0]) := by decide +kernel
  obtain ⟨F, hF, hends⟩ := Option.map_eq_some_iff.mp hrun
  obtain ⟨hhere, hends⟩ := Prod.mk.inj hends
  obtain ⟨hthere, hcauses⟩ := Prod.mk.inj hends
  obtain ⟨origin, hring, hcause⟩ := List.map_eq_singleton_iff.mp hcauses
  refine ⟨F, (reaches_of_run greetingActions hF).mono fun G action hguard v p step hstep ↦
    (hguard v p step hstep).mono fun _ _ ↦ trivial, ⟨origin, by rw [hring]; rfl, hcause⟩, ?_, ?_⟩
  · exact F.gets_of_shown (by rw [hhere]; exact List.mem_singleton_self _)
  · exact F.gets_of_shown (by rw [hthere]; exact List.mem_singleton_self _)

theorem both_paths_alike_greeting :
    ∃ F : Fleet Bool 2 Unit, ∃ origin, (F.ring false)[0]? = some origin ∧
      F.DeliversAlike pairMac false origin.writer 0 greeting := by
  obtain ⟨F, hF, ⟨origin, horigin, hcause⟩, -, -⟩ := exists_greeted
  exact ⟨F, origin, horigin, both_paths_alike (by decide) hF horigin hcause rfl (by decide)
    (List.cons_ne_nil _ _)⟩

/-- The two messages differ in more than the address. -/
theorem paths_differ :
    ∃ F : Fleet Bool 2 Unit, Reaches Fleet.step (Everywhere (Admits (Carries greeting))) pair F ∧
      (∃ origin, (F.ring false)[0]? = some origin ∧ origin.cause = .sent greeting 0) ∧
        ∃ held held' message message', F.Gets false listener .shm held 4 message ∧
          held.incoming.source = 0 ∧ F.Gets true listener .shm held' 4 message' ∧
            held'.incoming.source = 0 ∧
              { message with fromAddress := message'.fromAddress } ≠ message' := by
  obtain ⟨F, hF, horigin, ⟨held, hsource, hhere⟩, held', hsource', hthere⟩ := exists_greeted
  exact ⟨F, hF, horigin, held, held', _, _, hhere, hsource, hthere, hsource', by decide⟩

end VehicleComm.Traffic
