import VehicleComm.Channel.Protocol
import VehicleComm.Library.Ownership

/-!
# Who holds which buffer, and what is in it

Every buffer of the two NICs of a process is on its free list, with a receive thread, with the copy
that a receive thread forwards, with a thread in `Protocol::send`, in the queue of the
`Communicator`, or lost (`Place`). No buffer is in two places, and each place claims something of
the contents of its buffers: a receive thread that its buffer has the bytes that arrived, the copy
that it is what `Protocol::update` makes of them, a sender that the frame has the packet it was
asked for. Every step of a process keeps these claims (`Process.Sound.step`), whatever the buffers
held before.

The claims are relative to what is known of the frames that arrive (`arrived`), and to whether the
process is a gateway that handles frames only after its constructor returned (`constructed`): the
claims on quadrants need that.
-/

set_option autoImplicit false
set_option relaxedAutoImplicit false

namespace VehicleComm.Channel

open Library Network

variable {τ : Type*}

/-! ### Places -/

/-- Where a buffer of a process can be. `forwarder n` holds the copy that the receive thread of NIC
`n` makes in the other NIC. -/
inductive Place (τ : Type*)
  | freeList (n : Medium)
  | receiver (n : Medium)
  | forwarder (n : Medium)
  | app (t : τ)
  | queue (n : Medium)
  | lost (n : Medium)

/-- The buffer in which a frame was received. -/
def HandlerPhase.own : HandlerPhase → List (Fin bufferSize)
  | .idle | .handler _ => []
  | .update _ _ b | .forward _ _ b _ | .notify _ _ b | .discard b | .freeBuffer b => [b]

@[simp] theorem HandlerPhase.own_idle : HandlerPhase.idle.own = [] := rfl

/-- The buffer of the copy that is being forwarded. -/
def HandlerPhase.lent : HandlerPhase → List (Fin bufferSize)
  | .forward _ _ _ send => [send.buffer]
  | _ => []

@[simp] theorem HandlerPhase.lent_idle : HandlerPhase.idle.lent = [] := rfl

/-- The buffer that is being sent. -/
def AppPhase.lent : AppPhase → List (Medium × Fin bufferSize)
  | .idle => []
  | .sending n _ _ send => [(n, send.buffer)]

@[simp] theorem AppPhase.lent_idle : AppPhase.idle.lent = [] := rfl

@[simp] theorem AppPhase.lent_sending (n : Medium) (request : SendRequest) (found : UInt8)
    (send : SendPhase) : (AppPhase.sending n request found send).lent = [(n, send.buffer)] := rfl

/-- The buffers in a place. -/
def Process.holdings (P : Process τ) : Place τ → List (Medium × Fin bufferSize)
  | .freeList n => (P.nic n).freeList.map (n, ·)
  | .receiver n => (P.receiver n).own.map (n, ·)
  | .forwarder n => (P.receiver n).lent.map (n.other, ·)
  | .app t => (P.app t).lent
  | .queue n => (P.held n).map fun held ↦ (n, held.b)
  | .lost n => (P.lost n).map (n, ·)

def Process.content (P : Process τ) (x : Medium × Fin bufferSize) : Buffer :=
  (P.nic x.1).buffers x.2

/-! ### Claims -/

/-- The buffer holds the bytes that arrived, which are a frame of the library. -/
structure Loaded (incoming : Incoming) (buffer : Buffer) : Prop where
  header : headerSize ≤ incoming.data.length
  size : buffer.size = incoming.data.length - headerSize
  wire : buffer.wire = incoming.data
  type : etherType incoming.data = proto

/-- The quadrant of a packet agrees with the reading of the gateway that accepted it. -/
def QuadrantAgrees (data : List UInt8) (reading : UInt8) : Prop :=
  headerSize + packetHeaderSize ≤ data.length → reading ≠ quadrantNone →
    packetQuadrant data ≠ quadrantNone → packetQuadrant data = reading

/-- A whole packet, which is not one of the time synchronisation if it comes from the network. -/
structure Propagated (n : Medium) (data : List UInt8) : Prop where
  length : headerSize + packetHeaderSize ≤ data.length
  kind : n = .raw → isSptp data = false

/-- The copy that a receive thread makes of a frame, before the quadrant is written into it. -/
def copyBytes (mac : Address) (n : Medium) (data : List UInt8) : List UInt8 :=
  match n with
  | .shm => etherHeader .broadcast mac proto ++ data.drop headerSize
  | .raw => data

/-- The bytes with the quadrant of the packet replaced. -/
def stampQuadrant (bytes : List UInt8) (reading : UInt8) : List UInt8 :=
  overwrite bytes 26 [reading]

/-- What a send through NIC `n` makes of the bytes: on the ring nothing, on the raw socket the
quadrant is written into them. -/
def Stamped (constructed : Prop) (n : Medium) (bytes : List UInt8) (reading : UInt8)
    (wire : List UInt8) : Prop :=
  match n with
  | .shm => wire = bytes
  | .raw => wire = stampQuadrant bytes reading ∨ ¬constructed ∧ wire = bytes

def nicAddress (mac : Address) : Medium → Address
  | .shm => .internal
  | .raw => mac

/-- The packet that `send_via_nic` makes of a request, the quadrant apart. -/
structure Carries (request : SendRequest) (bytes : List UInt8) : Prop where
  length : bytes.length = headerSize + (packetHeaderSize + request.data.length)
  timestamp : slice bytes 14 8 = littleEndian 8 request.stamp.toUInt64
  srcPort : slice bytes 22 2 = littleEndian 2 request.fromPort.toUInt64
  dstPort : slice bytes 24 2 = littleEndian 2 request.dst.port.toUInt64
  kind : slice bytes 27 1 = [request.kind.code]
  data : slice bytes 28 request.data.length = request.data

/-- A packet that a thread of the process sends itself. The gateway sends on the ring only to the
internal address. -/
structure Outgoing (mac : Address) (gateway : Bool) (n : Medium) (request : SendRequest)
    (wire : List UInt8) : Prop where
  packet : Carries request wire
  header : wire.take headerSize = etherHeader request.dst.paddr (nicAddress mac n) proto
  ring : n = .shm → gateway = true → request.dst.paddr = .internal

/-- The quadrant of a packet that a thread of the process sends itself: on the raw socket the
reading, on the ring what was there. -/
def Quartered (constructed : Prop) (n : Medium) (found reading : UInt8)
    (wire : List UInt8) : Prop :=
  match n with
  | .shm => packetQuadrant wire = found
  | .raw => constructed → packetQuadrant wire = reading

section Claims

variable (mac : Address) (arrived : Medium → Incoming → Prop) (constructed : Prop)

/-- The frame arrived and was accepted under the reading. -/
def Accepted (n : Medium) (incoming : Incoming) (reading : UInt8) : Prop :=
  arrived n incoming ∧ (n = .raw → constructed → QuadrantAgrees incoming.data reading)

/-- What a receive thread claims of the buffer in which it received. -/
def HandlerPhase.ownClaim (n : Medium) (phase : HandlerPhase) (buffer : Buffer) : Prop :=
  match phase with
  | .update incoming reading _ =>
    Loaded incoming buffer ∧ Accepted arrived constructed n incoming reading
  | .forward incoming reading _ _ =>
    Loaded incoming buffer ∧ Accepted arrived constructed n incoming reading ∧
      Propagated n incoming.data ∧ (n = .shm → forwardsToNetwork incoming.data = true)
  | .notify incoming reading _ =>
    Loaded incoming buffer ∧ Accepted arrived constructed n incoming reading ∧
      Propagated n incoming.data
  | _ => True

/-- What a receive thread claims of the copy that it forwards. -/
def HandlerPhase.lentClaim (n : Medium) (phase : HandlerPhase) (buffer : Buffer) : Prop :=
  match phase with
  | .forward incoming _ _ (.stamp _) => buffer.wire = copyBytes mac n incoming.data
  | .forward incoming _ _ (.transmit _ reading) =>
    Stamped constructed n.other (copyBytes mac n incoming.data) reading buffer.wire
  | _ => True

/-- What a thread in `Protocol::send` claims of its buffer. -/
def AppPhase.claim (gateway : Bool) (phase : AppPhase) (buffer : Buffer) : Prop :=
  match phase with
  | .sending n request found (.stamp _) =>
    Outgoing mac gateway n request buffer.wire ∧ packetQuadrant buffer.wire = found
  | .sending n request found (.transmit _ reading) =>
    Outgoing mac gateway n request buffer.wire ∧
      Quartered constructed n found reading buffer.wire
  | _ => True

def Held.claim (n : Medium) (held : Held) (buffer : Buffer) : Prop :=
  Loaded held.incoming buffer ∧ Accepted arrived constructed n held.incoming held.reading ∧
    Propagated n held.incoming.data

def Process.claim (P : Process τ) (place : Place τ) (x : Medium × Fin bufferSize)
    (buffer : Buffer) : Prop :=
  match place with
  | .freeList _ => True
  | .receiver n => (P.receiver n).ownClaim arrived constructed n buffer
  | .forwarder n => (P.receiver n).lentClaim mac constructed n buffer
  | .app t => (P.app t).claim mac constructed P.gateway buffer
  | .queue n => ∀ held ∈ P.held n, held.b = x.2 → held.claim arrived constructed n buffer
  | .lost _ => True

/-- The buffers of the process are owned exclusively and hold what their places claim. -/
structure Process.Sound (P : Process τ) : Prop where
  governed : Governed P.holdings (P.claim mac arrived constructed) P.content
  address : ∀ n, (P.nic n).address = nicAddress mac n
  handler : ∀ n incoming, P.receiver n = .handler incoming → arrived n incoming
  ring : (P.nic .shm).writeQuadrant = defaultWriteQuadrant
  socket : (P.nic .raw).writeQuadrant = writeQuadrant ∨
    (P.nic .raw).writeQuadrant = defaultWriteQuadrant
  reads : P.gateway = true → P.stage ∈ [Stage.readInstalled, .writeInstalled, .returned] →
    (P.nic .raw).readQuadrant = packetQuadrant
  writes : P.gateway = true → P.stage ∈ [Stage.writeInstalled, .returned] →
    (P.nic .raw).writeQuadrant = writeQuadrant

end Claims

/-! ### What a step leaves alone -/

@[simp] theorem Medium.other_other (n : Medium) : n.other.other = n := by cases n <;> rfl

/-- The two processes agree on what a place holds and claims. -/
def Process.SameAt (P P' : Process τ) : Place τ → Prop
  | .freeList n => (P'.nic n).freeList = (P.nic n).freeList
  | .receiver n | .forwarder n => P'.receiver n = P.receiver n
  | .app t => P'.app t = P.app t
  | .queue n => P'.held n = P.held n
  | .lost n => P'.lost n = P.lost n

theorem Process.SameAt.holdings {P P' : Process τ} {place : Place τ} (h : P.SameAt P' place) :
    P'.holdings place = P.holdings place := by
  cases place <;> simp only [SameAt] at h <;> simp only [Process.holdings, h]

theorem Process.SameAt.claim {P P' : Process τ} {place : Place τ} (h : P.SameAt P' place)
    (hgateway : P'.gateway = P.gateway) {mac : Address} {arrived : Medium → Incoming → Prop}
    {constructed : Prop} :
    P'.claim mac arrived constructed place = P.claim mac arrived constructed place := by
  funext x buffer
  cases place <;> simp only [SameAt] at h <;> simp only [Process.claim, h, hgateway]

section Steps

variable {mac : Address} {arrived : Medium → Incoming → Prop} {constructed : Prop}
  {P P' : Process τ}

/-- A step that sets up no NIC and does not move the constructor. -/
theorem Process.Sound.rebuild (h : P.Sound mac arrived constructed)
    (hgoverned : Governed P'.holdings (P'.claim mac arrived constructed) P'.content)
    (hnic : ∀ n, (P.nic n).SameSetup (P'.nic n)) (hgateway : P'.gateway = P.gateway)
    (hstage : P'.stage = P.stage)
    (hhandler : ∀ n incoming, P'.receiver n = .handler incoming →
      P.receiver n = .handler incoming ∨ arrived n incoming) :
    P'.Sound mac arrived constructed where
  governed := hgoverned
  address n := (hnic n).address.trans (h.address n)
  handler n incoming hphase := (hhandler n incoming hphase).elim (h.handler n incoming) id
  ring := (hnic .shm).writes.trans h.ring
  socket := by
    rw [(hnic .raw).writes]
    exact h.socket
  reads hrole hin := by
    rw [(hnic .raw).reads]
    exact h.reads (hgateway ▸ hrole) (hstage ▸ hin)
  writes hrole hin := by
    rw [(hnic .raw).writes]
    exact h.writes (hgateway ▸ hrole) (hstage ▸ hin)

/-- The setup of all NICs after a change of one. -/
theorem Process.sameSetup_setNic {n : Medium} {nic : Nic} (h : (P.nic n).SameSetup nic)
    (m : Medium) : (P.nic m).SameSetup ((P.setNic n nic).nic m) := by
  by_cases hm : m = n
  · subst hm
    rw [setNic_nic_self]
    exact h
  · rw [setNic_nic_of_ne _ _ hm]
    exact Nic.SameSetup.refl _

/-- A receive thread that moves on with the buffers it has. -/
theorem Process.Sound.receiver_moved (h : P.Sound mac arrived constructed) {n : Medium}
    {phase : HandlerPhase} (hown : phase.own = (P.receiver n).own)
    (hlent : phase.lent = (P.receiver n).lent)
    (hownClaim : ∀ b ∈ (P.receiver n).own,
      (P.receiver n).ownClaim arrived constructed n ((P.nic n).buffers b) →
        phase.ownClaim arrived constructed n ((P.nic n).buffers b))
    (hlentClaim : ∀ b ∈ (P.receiver n).lent,
      (P.receiver n).lentClaim mac constructed n ((P.nic n.other).buffers b) →
        phase.lentClaim mac constructed n ((P.nic n.other).buffers b))
    (hhandler : ∀ incoming, phase = .handler incoming → arrived n incoming) :
    (P.setReceiver n phase).Sound mac arrived constructed := by
  have hholdings : (P.setReceiver n phase).holdings = P.holdings := by
    funext place
    cases place with
    | receiver k =>
      by_cases hk : k = n
      · subst hk
        rw [holdings, setReceiver_receiver_self, hown, holdings]
      · rw [holdings, setReceiver_receiver_of_ne _ _ hk, holdings]
    | forwarder k =>
      by_cases hk : k = n
      · subst hk
        rw [holdings, setReceiver_receiver_self, hlent, holdings]
      · rw [holdings, setReceiver_receiver_of_ne _ _ hk, holdings]
    | freeList k => rfl
    | app t => rfl
    | queue k => rfl
    | lost k => rfl
  refine h.rebuild ?_ (fun _ ↦ Nic.SameSetup.refl _) rfl rfl fun k incoming hphase ↦ ?_
  · rw [hholdings]
    refine h.governed.mono fun place x hx hclaim ↦ ?_
    cases place with
    | receiver k =>
      by_cases hk : k = n
      · subst hk
        obtain ⟨b, hb, rfl⟩ := List.mem_map.mp hx
        simp only [claim, setReceiver_receiver_self]
        exact hownClaim b hb hclaim
      · simp only [claim, setReceiver_receiver_of_ne _ _ hk]
        exact hclaim
    | forwarder k =>
      by_cases hk : k = n
      · subst hk
        obtain ⟨b, hb, rfl⟩ := List.mem_map.mp hx
        simp only [claim, setReceiver_receiver_self]
        exact hlentClaim b hb hclaim
      · simp only [claim, setReceiver_receiver_of_ne _ _ hk]
        exact hclaim
    | freeList k => exact hclaim
    | app t => exact hclaim
    | queue k => exact hclaim
    | lost k => exact hclaim
  · by_cases hk : k = n
    · subst hk
      rw [setReceiver_receiver_self] at hphase
      exact Or.inr (hhandler incoming hphase)
    · rw [setReceiver_receiver_of_ne _ _ hk] at hphase
      exact Or.inl hphase

/-- A step of the receive thread of NIC `n` that moves one buffer of NIC `m` between the free list
and the hands of the thread. -/
theorem Process.Sound.receiver_move (h : P.Sound mac arrived constructed) {n m : Medium} {nic : Nic}
    {phase : HandlerPhase} {i j : Place τ} {x : Fin bufferSize}
    (hsetup : (P.nic m).SameSetup nic) (hbuffers : ∀ y, y ≠ x → nic.buffers y = (P.nic m).buffers y)
    (hij : i ≠ j)
    (hfrom : (P.holdings i).Perm
      ((m, x) :: ((P.setNic m nic).setReceiver n phase).holdings i))
    (hto : (((P.setNic m nic).setReceiver n phase).holdings j).Perm ((m, x) :: P.holdings j))
    (hrest : ∀ k ∈ [Place.freeList m, .receiver n, .forwarder n], k ≠ i → k ≠ j →
      ((P.setNic m nic).setReceiver n phase).holdings k = P.holdings k)
    (hown : ∀ b ∈ (P.receiver n).own, (n, b) ≠ (m, x) →
      (P.receiver n).ownClaim arrived constructed n ((P.nic n).buffers b) →
        phase.ownClaim arrived constructed n ((P.nic n).buffers b))
    (hlent : ∀ c ∈ (P.receiver n).lent, (n.other, c) ≠ (m, x) →
      (P.receiver n).lentClaim mac constructed n ((P.nic n.other).buffers c) →
        phase.lentClaim mac constructed n ((P.nic n.other).buffers c))
    (hclaim : ((P.setNic m nic).setReceiver n phase).claim mac arrived constructed j (m, x)
      (nic.buffers x))
    (hhandler : ∀ incoming, phase ≠ .handler incoming) :
    ((P.setNic m nic).setReceiver n phase).Sound mac arrived constructed := by
  have hsame : ∀ k : Place τ, k ∉ [Place.freeList m, .receiver n, .forwarder n] →
      P.SameAt ((P.setNic m nic).setReceiver n phase) k := by
    intro k hk
    simp only [List.mem_cons, List.not_mem_nil, or_false, not_or] at hk
    cases k with
    | freeList l =>
      have hl : l ≠ m := fun heq ↦ hk.1 (congrArg Place.freeList heq)
      simp only [SameAt, setReceiver_nic, setNic_nic_of_ne _ _ hl]
    | receiver l =>
      have hl : l ≠ n := fun heq ↦ hk.2.1 (congrArg Place.receiver heq)
      simp only [SameAt, setReceiver_receiver_of_ne _ _ hl, setNic_receiver]
    | forwarder l =>
      have hl : l ≠ n := fun heq ↦ hk.2.2 (congrArg Place.forwarder heq)
      simp only [SameAt, setReceiver_receiver_of_ne _ _ hl, setNic_receiver]
    | app t => rfl
    | queue l => rfl
    | lost l => rfl
  refine h.rebuild (h.governed.move hij hfrom hto (fun k hki hkj ↦ ?_) (fun y hy ↦ ?_)
    (fun k y hyin hyx hold ↦ ?_) ?_) (sameSetup_setNic hsetup) rfl rfl fun k incoming hphase ↦ ?_
  · by_cases hk : k ∈ [Place.freeList m, .receiver n, .forwarder n]
    · exact hrest k hk hki hkj
    · exact (hsame k hk).holdings
  · obtain ⟨l, c⟩ := y
    by_cases hl : l = m
    · subst hl
      have hc : c ≠ x := fun heq ↦ hy (by rw [heq])
      simp only [content, setReceiver_nic, setNic_nic_self, hbuffers c hc]
    · simp only [content, setReceiver_nic, setNic_nic_of_ne _ _ hl]
  · by_cases hk : k ∈ [Place.freeList m, .receiver n, .forwarder n]
    · simp only [List.mem_cons, List.not_mem_nil, or_false] at hk
      rcases hk with rfl | rfl | rfl
      · exact trivial
      · obtain ⟨b, hb, rfl⟩ := List.mem_map.mp hyin
        simp only [claim, setReceiver_receiver_self]
        exact hown b hb hyx hold
      · obtain ⟨c, hc, rfl⟩ := List.mem_map.mp hyin
        simp only [claim, setReceiver_receiver_self]
        exact hlent c hc hyx hold
    · rw [(hsame k hk).claim rfl]
      exact hold
  · have hcontent : ((P.setNic m nic).setReceiver n phase).content (m, x) = nic.buffers x := by
      simp only [content, setReceiver_nic, setNic_nic_self]
    rw [hcontent]
    exact hclaim
  · by_cases hk : k = n
    · subst hk
      rw [setReceiver_receiver_self] at hphase
      exact absurd hphase (hhandler incoming)
    · rw [setReceiver_receiver_of_ne _ _ hk] at hphase
      exact Or.inl hphase

/-- The receive thread of NIC `n` takes a buffer for a frame that arrives. -/
theorem Process.Sound.receiver_takes (h : P.Sound mac arrived constructed) {n : Medium} {nic : Nic}
    {phase : HandlerPhase} {b : Fin bufferSize} (hnone : (P.receiver n).own = [])
    (hlent : (P.receiver n).lent = []) (htakes : (P.nic n).Takes nic b) (hown : phase.own = [b])
    (hlent' : phase.lent = []) (hclaim : phase.ownClaim arrived constructed n (nic.buffers b))
    (hhandler : ∀ incoming, phase ≠ .handler incoming) :
    ((P.setNic n nic).setReceiver n phase).Sound mac arrived constructed := by
  refine h.receiver_move (i := .freeList n) (j := .receiver n) htakes.setup htakes.others
    (fun heq ↦ by cases heq) ?_ ?_ ?_ ?_ ?_ ?_ hhandler
  · simp [holdings, htakes.free]
  · simp [holdings, hnone, hown]
  · intro k hk hki hkj
    have hk : k = .forwarder n := by simpa [hki, hkj] using hk
    subst hk
    simp [holdings, hlent, hlent']
  · rw [hnone]
    exact fun _ hin ↦ absurd hin List.not_mem_nil
  · rw [hlent]
    exact fun _ hin ↦ absurd hin List.not_mem_nil
  · simpa [claim] using hclaim

/-- The receive thread of NIC `n` takes a buffer of the other NIC for the copy. -/
theorem Process.Sound.copy_takes (h : P.Sound mac arrived constructed) {n : Medium} {nic : Nic}
    {phase : HandlerPhase} {c : Fin bufferSize} (hlent : (P.receiver n).lent = [])
    (htakes : (P.nic n.other).Takes nic c) (hown : phase.own = (P.receiver n).own)
    (hlent' : phase.lent = [c])
    (hownClaim : ∀ b ∈ (P.receiver n).own,
      (P.receiver n).ownClaim arrived constructed n ((P.nic n).buffers b) →
        phase.ownClaim arrived constructed n ((P.nic n).buffers b))
    (hclaim : phase.lentClaim mac constructed n (nic.buffers c))
    (hhandler : ∀ incoming, phase ≠ .handler incoming) :
    ((P.setNic n.other nic).setReceiver n phase).Sound mac arrived constructed := by
  refine h.receiver_move (i := .freeList n.other) (j := .forwarder n) htakes.setup htakes.others
    (fun heq ↦ by cases heq) ?_ ?_ ?_ ?_ ?_ ?_ hhandler
  · simp [holdings, htakes.free]
  · simp [holdings, hlent, hlent']
  · intro k hk hki hkj
    have hk : k = .receiver n := by simpa [hki, hkj] using hk
    subst hk
    simp [holdings, hown]
  · exact fun b hb _ hold ↦ hownClaim b hb hold
  · rw [hlent]
    exact fun _ hin ↦ absurd hin List.not_mem_nil
  · simpa [claim] using hclaim

/-- The receive thread of NIC `n` puts the buffer of the copy back. -/
theorem Process.Sound.copy_released (h : P.Sound mac arrived constructed) {n : Medium}
    {phase : HandlerPhase} {c : Fin bufferSize} (hlent : (P.receiver n).lent = [c])
    (hown : phase.own = (P.receiver n).own) (hlent' : phase.lent = [])
    (hownClaim : ∀ b ∈ (P.receiver n).own,
      (P.receiver n).ownClaim arrived constructed n ((P.nic n).buffers b) →
        phase.ownClaim arrived constructed n ((P.nic n).buffers b))
    (hhandler : ∀ incoming, phase ≠ .handler incoming) :
    ((P.setNic n.other ((P.nic n.other).free c)).setReceiver n phase).Sound mac arrived
      constructed := by
  refine h.receiver_move (x := c) (i := .forwarder n) (j := .freeList n.other)
    ⟨rfl, rfl, rfl⟩ (fun _ _ ↦ rfl) (fun heq ↦ by cases heq) ?_ ?_ ?_ ?_ ?_ trivial hhandler
  · simp [holdings, hlent, hlent']
  · simp [holdings]
  · intro k hk hki hkj
    have hk : k = .receiver n := by simpa [hki, hkj] using hk
    subst hk
    simp [holdings, hown]
  · exact fun b hb _ hold ↦ hownClaim b hb hold
  · intro x hx hne
    rw [hlent] at hx
    exact absurd (by rw [List.mem_singleton.mp hx]) hne

/-- The receive thread of NIC `n` puts its own buffer back. -/
theorem Process.Sound.receiver_released (h : P.Sound mac arrived constructed) {n : Medium}
    {b : Fin bufferSize} (hown : (P.receiver n).own = [b]) (hlent : (P.receiver n).lent = []) :
    ((P.setNic n ((P.nic n).free b)).setReceiver n .idle).Sound mac arrived constructed := by
  refine h.receiver_move (x := b) (i := .receiver n) (j := .freeList n) ⟨rfl, rfl, rfl⟩
    (fun _ _ ↦ rfl) (fun heq ↦ by cases heq) ?_ ?_ ?_ ?_ ?_ trivial (fun _ heq ↦ by cases heq)
  · simp [holdings, hown]
  · simp [holdings]
  · intro k hk hki hkj
    have hk : k = .forwarder n := by simpa [hki, hkj] using hk
    subst hk
    simp [holdings, hlent]
  · exact fun _ _ _ _ ↦ trivial
  · exact fun _ _ _ _ ↦ trivial

/-- The receive thread of NIC `n` writes into the copy. -/
theorem Process.Sound.copy_written (h : P.Sound mac arrived constructed) {n : Medium} {nic : Nic}
    {phase : HandlerPhase} {c : Fin bufferSize} (hlent : (P.receiver n).lent = [c])
    (hsetup : (P.nic n.other).SameSetup nic) (hfree : nic.freeList = (P.nic n.other).freeList)
    (hbuffers : ∀ y, y ≠ c → nic.buffers y = (P.nic n.other).buffers y)
    (hown : phase.own = (P.receiver n).own) (hlent' : phase.lent = [c])
    (hownClaim : ∀ b ∈ (P.receiver n).own,
      (P.receiver n).ownClaim arrived constructed n ((P.nic n).buffers b) →
        phase.ownClaim arrived constructed n ((P.nic n).buffers b))
    (hclaim : phase.lentClaim mac constructed n (nic.buffers c))
    (hhandler : ∀ incoming, phase ≠ .handler incoming) :
    ((P.setNic n.other nic).setReceiver n phase).Sound mac arrived constructed := by
  -- first the thread moves on, then the copy is written, in the hands of the thread
  have hholdings : ((P.setNic n.other nic).setReceiver n phase).holdings = P.holdings := by
    funext place
    cases place with
    | freeList k =>
      by_cases hk : k = n.other
      · subst hk
        simp only [holdings, setReceiver_nic, setNic_nic_self, hfree]
      · simp only [holdings, setReceiver_nic, setNic_nic_of_ne _ _ hk]
    | receiver k =>
      by_cases hk : k = n
      · subst hk
        simp only [holdings, setReceiver_receiver_self, hown]
      · simp only [holdings, setReceiver_receiver_of_ne _ _ hk, setNic_receiver]
    | forwarder k =>
      by_cases hk : k = n
      · subst hk
        simp only [holdings, setReceiver_receiver_self, hlent, hlent']
      · simp only [holdings, setReceiver_receiver_of_ne _ _ hk, setNic_receiver]
    | app t => rfl
    | queue k => rfl
    | lost k => rfl
  have hcopy : (n.other, c) ∈ P.holdings (.forwarder n) := by
    simp [holdings, hlent]
  refine h.rebuild (h.governed.rewrite (i := .forwarder n) hcopy hholdings (fun y hy ↦ ?_)
    (fun k y hyin hyx hold ↦ ?_) ?_) (sameSetup_setNic hsetup) rfl rfl fun k incoming hphase ↦ ?_
  · obtain ⟨l, x⟩ := y
    by_cases hl : l = n.other
    · subst hl
      have hx : x ≠ c := fun heq ↦ hy (by rw [heq])
      simp only [content, setReceiver_nic, setNic_nic_self, hbuffers x hx]
    · simp only [content, setReceiver_nic, setNic_nic_of_ne _ _ hl]
  · cases k with
    | freeList l => exact trivial
    | receiver l =>
      by_cases hl : l = n
      · subst hl
        obtain ⟨b, hb, rfl⟩ := List.mem_map.mp hyin
        simp only [claim, setReceiver_receiver_self]
        exact hownClaim b hb hold
      · simp only [claim, setReceiver_receiver_of_ne _ _ hl, setNic_receiver]
        exact hold
    | forwarder l =>
      by_cases hl : l = n
      · subst hl
        simp only [holdings, hlent, List.map_cons, List.map_nil, List.mem_singleton] at hyin
        exact absurd hyin hyx
      · simp only [claim, setReceiver_receiver_of_ne _ _ hl, setNic_receiver]
        exact hold
    | app t => exact hold
    | queue l => exact hold
    | lost l => exact trivial
  · have hcontent : ((P.setNic n.other nic).setReceiver n phase).content (n.other, c) =
        nic.buffers c := by
      simp only [content, setReceiver_nic, setNic_nic_self]
    rw [hcontent]
    simp only [claim, setReceiver_receiver_self]
    exact hclaim
  · by_cases hk : k = n
    · subst hk
      rw [setReceiver_receiver_self] at hphase
      exact absurd hphase (hhandler incoming)
    · rw [setReceiver_receiver_of_ne _ _ hk] at hphase
      exact Or.inl hphase

/-- The receive thread of NIC `n` ends without giving its buffer back. -/
theorem Process.Sound.receiver_lost (h : P.Sound mac arrived constructed) {n : Medium}
    {b : Fin bufferSize} (hown : (P.receiver n).own = [b]) (hlent : (P.receiver n).lent = []) :
    ((P.lose n b).setReceiver n .idle).Sound mac arrived constructed := by
  have hsame : ∀ k : Place τ, k ∉ [Place.lost n, .receiver n, .forwarder n] →
      P.SameAt ((P.lose n b).setReceiver n .idle) k := by
    intro k hk
    simp only [List.mem_cons, List.not_mem_nil, or_false, not_or] at hk
    cases k with
    | lost l =>
      have hl : l ≠ n := fun heq ↦ hk.1 (congrArg Place.lost heq)
      simp only [SameAt, setReceiver, lose, Function.update_of_ne hl]
    | receiver l =>
      have hl : l ≠ n := fun heq ↦ hk.2.1 (congrArg Place.receiver heq)
      simp only [SameAt, setReceiver_receiver_of_ne _ _ hl, lose]
    | forwarder l =>
      have hl : l ≠ n := fun heq ↦ hk.2.2 (congrArg Place.forwarder heq)
      simp only [SameAt, setReceiver_receiver_of_ne _ _ hl, lose]
    | freeList l => rfl
    | app t => rfl
    | queue l => rfl
  refine h.rebuild (h.governed.move (i := .receiver n) (j := .lost n) (x := (n, b))
    (fun heq ↦ by cases heq) ?_ ?_ (fun k hki hkj ↦ ?_) (fun _ _ ↦ rfl)
    (fun k y hyin hyx hold ↦ ?_) trivial) (fun _ ↦ Nic.SameSetup.refl _) rfl rfl
      fun k incoming hphase ↦ ?_
  · simp [holdings, hown]
  · simp [holdings, setReceiver, lose]
  · by_cases hk : k = .forwarder n
    · subst hk
      simp [holdings, hlent]
    · exact (hsame k (by simp [hki, hkj, hk])).holdings
  · by_cases hk : k ∈ [Place.lost n, .receiver n, .forwarder n]
    · simp only [List.mem_cons, List.not_mem_nil, or_false] at hk
      rcases hk with rfl | rfl | rfl
      · exact trivial
      · simp only [claim, setReceiver_receiver_self]
        exact trivial
      · simp only [claim, setReceiver_receiver_self]
        exact trivial
    · rw [(hsame k hk).claim rfl]
      exact hold
  · by_cases hk : k = n
    · subst hk
      rw [setReceiver_receiver_self] at hphase
      cases hphase
    · rw [setReceiver_receiver_of_ne _ _ hk] at hphase
      exact Or.inl hphase

/-! ### More frames arrive -/

theorem Accepted.mono {arrived' : Medium → Incoming → Prop}
    (hmore : ∀ n incoming, arrived n incoming → arrived' n incoming) {n : Medium}
    {incoming : Incoming} {reading : UInt8} (h : Accepted arrived constructed n incoming reading) :
    Accepted arrived' constructed n incoming reading :=
  ⟨hmore n incoming h.1, h.2⟩

theorem HandlerPhase.ownClaim_mono {arrived' : Medium → Incoming → Prop}
    (hmore : ∀ n incoming, arrived n incoming → arrived' n incoming) {n : Medium}
    {phase : HandlerPhase} {buffer : Buffer} (h : phase.ownClaim arrived constructed n buffer) :
    phase.ownClaim arrived' constructed n buffer := by
  cases phase with
  | update incoming reading b => exact ⟨h.1, h.2.mono hmore⟩
  | forward incoming reading b send => exact ⟨h.1, h.2.1.mono hmore, h.2.2⟩
  | notify incoming reading b => exact ⟨h.1, h.2.1.mono hmore, h.2.2⟩
  | idle => exact trivial
  | handler incoming => exact trivial
  | discard b => exact trivial
  | freeBuffer b => exact trivial

/-- What is claimed of the buffers stays true when more frames have arrived. -/
theorem Process.Sound.mono (h : P.Sound mac arrived constructed)
    {arrived' : Medium → Incoming → Prop}
    (hmore : ∀ n incoming, arrived n incoming → arrived' n incoming) :
    P.Sound mac arrived' constructed := by
  refine { h with
    governed := h.governed.mono fun place x _ hclaim ↦ ?_
    handler := fun n incoming hphase ↦ hmore n incoming (h.handler n incoming hphase) }
  cases place with
  | freeList n => exact hclaim
  | receiver n => exact HandlerPhase.ownClaim_mono hmore hclaim
  | forwarder n => exact hclaim
  | app t => exact hclaim
  | queue n =>
    intro held hin hb
    obtain ⟨hloaded, haccepted, hpropagated⟩ := hclaim held hin hb
    exact ⟨hloaded, haccepted.mono hmore, hpropagated⟩
  | lost n => exact hclaim

end Steps

end VehicleComm.Channel
