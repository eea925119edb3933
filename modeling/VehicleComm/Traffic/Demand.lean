import VehicleComm.SmartData.Demand
import VehicleComm.Traffic.Utterances

/-!
# Where an interest comes from

In a fleet in which every interest in a unit is sent by a consumer that wants it, or by the tracker
of a road side unit that announces what it heard, no producer binds an interest that no consumer
ever wanted, however many trackers repeat each other (`binds_what_was_wanted`): each binding has the
period that some consumer wanted, or 1 where it wanted 0, its address is that of the process that
sent the message, and the messages of all bindings carried the quadrant that the producer saw last,
which is, of a message that came over the network, what the gateway of the sender read.

The difficulty is that a tracker is both fed by the network and a source of it, so what is wanted
and what is announced depend on each other. A guard on the sends (`Utters`) says of each interest
that it is wanted or announced at the time, and the induction over the run follows an announcement
back to the message that its tracker was handed (`Sought`).

Assumed are that in every process frames are handled only when the constructor has returned
(`Demands`), without which a gateway may send an interest with a quadrant that it never read, and
that no vehicle has the internal address for its own.
-/

set_option autoImplicit false
set_option relaxedAutoImplicit false

namespace VehicleComm.Traffic

open Library Network Channel SharedMemory SmartData

variable {V : Type*} {m : ℕ} {τ : Type*} {mac : V → Address} {F F' : Fleet V m τ}
  {unit : UInt32} {Wants : V → Fin (m + 1) → UInt64 → Prop} {v : V} {p : Fin (m + 1)}

/-- What an observer reads of a message. -/
def Reads (message : Message) (a : SmartData.Arrival) : Prop :=
  a.address.paddr.octets = message.fromAddress ∧ a.address.port = message.fromPort ∧
    a.quadrant = message.quadrant ∧ a.data = message.data

/-- An observer of the process was handed the message that `a` is read of. -/
def Fleet.Hands (F : Fleet V m τ) (v : V) (p : Fin (m + 1)) (a : SmartData.Arrival) : Prop :=
  ∃ n held message, F.Gets v p n held maxSize message ∧ Reads message a

/-- A tracker on the process has sent an announcement, after messages that it was handed. -/
def Fleet.Announces (F : Fleet V m τ) (unit : UInt32) (v : V) (p : Fin (m + 1))
    (periodUs : UInt64) : Prop :=
  ∃ clock T, Reaches Tracker.step (Tracker.Takes (F.Hands v p)) (Tracker.initial clock) T ∧
    ⟨unit, periodUs, false⟩ ∈ T.sent

/-- Guard of a run in which the constructors have returned before frames are handled, and every
interest in the unit is one of a consumer or of a tracker. -/
def Demands (unit : UInt32) (Wants : V → Fin (m + 1) → UInt64 → Prop) (F : Fleet V m τ)
    (action : FleetAction V m τ) : Prop :=
  Everywhere AfterConstruction F action ∧
    Utters (isInterestIn unit) (fun v p data ↦ ∃ periodUs,
      (Wants v p periodUs ∨ F.Announces unit v p periodUs) ∧
        data = interestMessage unit periodUs false) F action

/-- An interest that a consumer wanted. -/
def Sought (unit : UInt32) (Wants : V → Fin (m + 1) → UInt64 → Prop) (_ : V) (_ : Fin (m + 1))
    (data : List UInt8) : Prop :=
  ∃ periodUs, (∃ w q, Wants w q periodUs) ∧ data = interestMessage unit periodUs false

/-- What a process is handed as an interest in the unit a consumer wanted, and it came some route.
-/
theorem Fleet.Spoken.hands {constructed : Prop}
    (h : F.Spoken (isInterestIn unit) (Sought unit Wants)) (hsound : F.Sound mac constructed)
    (hmac : ∀ w, mac w ≠ .internal) {a : SmartData.Arrival} (hhands : F.Hands v p a)
    (hinterest : isInterestIn unit a.data = true) :
    ∃ n source request route, F.Conveys v n source request route ∧
      a.address = ⟨route.address mac, request.fromPort⟩ ∧
      (constructed → a.quadrant = route.quadrant) ∧
      ∃ periodUs, (∃ w q, Wants w q periodUs) ∧
        request.data = interestMessage unit periodUs false ∧ a.data = request.data := by
  obtain ⟨n, held, message, hgets, haddress, hport, hquadrant, hdata⟩ := hhands
  obtain ⟨request, route, hconveys, hvoiced⟩ := h.gets hsound hmac hgets
  obtain ⟨hmessage, hroute⟩ := hsound.gets_of_route hgets hconveys
  have hcut : a.data = request.data.take maxSize :=
    hdata.trans (congrArg Message.data hmessage)
  rw [hcut, isInterestIn_take (by decide)] at hinterest
  obtain ⟨-, periodUs, hwants, hrequest⟩ := hvoiced hinterest
  refine ⟨n, _, request, route, hconveys, ?_, fun hc ↦ hquadrant.trans (hroute (Or.inl hc)),
    periodUs, hwants, hrequest, ?_⟩
  · have hpaddr : a.address.paddr = route.address mac :=
      Address.eq_of_octets (haddress.trans (congrArg Message.fromAddress hmessage))
    have hfromPort : a.address.port = request.fromPort :=
      hport.trans (congrArg Message.fromPort hmessage)
    rw [← hpaddr, ← hfromPort]
  · rw [hcut, hrequest, List.take_of_length_le]
    rw [length_interestMessage]
    decide

/-- What the guard allows, a consumer wanted: a tracker announces what it was handed. -/
theorem Fleet.Spoken.utters (h : F.Spoken (isInterestIn unit) (Sought unit Wants))
    (hsound : F.Sound mac True) (hmac : ∀ w, mac w ≠ .internal) {action : FleetAction V m τ}
    (hguard : Demands unit Wants F action) :
    Utters (isInterestIn unit) (Sought unit Wants) F action := by
  obtain ⟨-, hutters⟩ := hguard
  unfold Utters at hutters ⊢
  split at hutters
  · next v p t request =>
    intro hinterest
    rcases hutters hinterest with hsptp | ⟨periodUs, hwants | hannounces, hdata⟩
    · exact Or.inl hsptp
    · exact Or.inr ⟨periodUs, ⟨v, p, hwants⟩, hdata⟩
    · obtain ⟨clock, T, hrun, hsent⟩ := hannounces
      obtain ⟨a, hhands, habout, hperiod⟩ := Tracker.announced_of_reaches hrun hsent
      obtain ⟨-, -, request', -, -, -, -, wanted, hwants, hrequest, hsame⟩ :=
        h.hands hsound hmac hhands habout
      rw [hsame, hrequest, interestPeriod_interestMessage] at hperiod
      exact Or.inr ⟨periodUs, hperiod ▸ hwants, hdata⟩
  · trivial

/-- No demand from nowhere. Assumes: no raw interface has the internal address, nothing but
construction happens in a process before its constructor has returned, every interest in the unit is
one of a consumer that wants it or of a tracker that was handed it, and the producer has taken any
of the messages that its process was handed. Each binding is that of the last message taken from its
address and, unless the cache is just being cleared, with the quadrant the producer saw last; its
period is one that some consumer wanted, or one microsecond for zero; and the message goes back to a
send from that address, which, if it came over the network, a gateway put there when it read that
quadrant. -/
theorem binds_what_was_wanted [DecidableEq V] [DecidableEq τ] (hmac : ∀ w, mac w ≠ .internal)
    {buffers : V → Fin (m + 1) → Medium → Fin bufferSize → Buffer}
    (hrun : Reaches Fleet.step (Demands unit Wants) (Fleet.create mac buffers) F)
    {lifetimeMinUs : UInt64} {lifetimeFactor : UInt32} {s : Demand}
    (hserves : Reaches Demand.step (Demand.Takes (F.Hands v p))
      (Demand.initial unit lifetimeMinUs lifetimeFactor) s) :
    ∀ b ∈ s.producer.cache.bindings, ∃ a, s.Serves b a ∧
      ((∀ other, s.producer.handling ≠ .clearing other) →
        a.quadrant = s.producer.lastSeenQuad) ∧
      ∃ n source request route, F.Conveys v n source request route ∧
        b.address = ⟨route.address mac, request.fromPort⟩ ∧ a.quadrant = route.quadrant ∧
        ∃ periodUs, (∃ w q, Wants w q periodUs) ∧ b.periodUs = BindingCache.atLeastOne periodUs ∧
          request.data = interestMessage unit periodUs false := by
  have hsound : F.Sound mac True := Fleet.sound_of_reaches (fun _ _ hguard _ ↦ hguard.1) hrun
  have hspoken : F.Spoken (isInterestIn unit) (Sought unit Wants) := by
    refine (hrun.invariant (P := fun G : Fleet V m τ ↦
      G.Sound mac True ∧ G.Spoken (isInterestIn unit) (Sought unit Wants))
      (fun G action G' hinv hguard hstep ↦ ?_)
      ⟨Fleet.sound_create mac buffers True, Fleet.spoken_create _ _ mac buffers⟩).2
    exact ⟨hinv.1.step (fun _ ↦ hguard.1) hstep,
      hinv.2.step (hinv.2.utters hinv.1 hmac hguard) hstep⟩
  obtain ⟨hdemand, hunit⟩ := Demand.sound_of_reaches hserves
  intro b hb
  obtain ⟨a, hserved, hseen⟩ := hdemand.served b hb
  have hsource := hserved
  obtain ⟨hinterest, haddress, hperiod, front, back, htaken, -⟩ := hsource
  have hhands : F.Hands v p a := hdemand.met a (by rw [htaken]; simp)
  rw [hunit] at hinterest
  obtain ⟨n, source, request, route, hconveys, hfrom, hquadrant, periodUs, hwants, hrequest,
    hsame⟩ := hspoken.hands hsound hmac hhands hinterest
  refine ⟨a, hserved, hseen, n, source, request, route, hconveys, haddress ▸ hfrom,
    hquadrant trivial, periodUs, hwants, ?_, hrequest⟩
  rw [hperiod, hsame, hrequest, interestPeriod_interestMessage]

def OnlyTen (v : Bool) (p : Fin 3) (periodUs : UInt64) : Prop :=
  v = false ∧ p = sender ∧ periodUs = 10

def SaysTen (v : Bool) (p : Fin 3) (data : List UInt8) : Prop :=
  v = false ∧ p = sender ∧ data = interestMessage 7 10 false

instance (v : Bool) (p : Fin 3) (data : List UInt8) : Decidable (SaysTen v p data) :=
  inferInstanceAs (Decidable (_ ∧ _))

/-- Guard of a run in which only it asks for the unit. -/
def TenOnly (F : Fleet Bool 2 Unit) (action : FleetAction Bool 2 Unit) : Prop :=
  Everywhere AfterConstruction F action ∧ Utters (isInterestIn 7) SaysTen F action

instance (F : Fleet Bool 2 Unit) (action : FleetAction Bool 2 Unit) :
    Decidable (TenOnly F action) :=
  inferInstanceAs (Decidable (_ ∧ _))

theorem TenOnly.demands {F : Fleet Bool 2 Unit} {action : FleetAction Bool 2 Unit}
    (h : TenOnly F action) : Demands 7 OnlyTen F action := by
  obtain ⟨hafter, hsays⟩ := h
  refine ⟨hafter, ?_⟩
  unfold Utters at hsays ⊢
  split at hsays
  · intro hinterest
    rcases hsays hinterest with hsptp | ⟨rfl, rfl, hdata⟩
    · exact Or.inl hsptp
    · exact Or.inr ⟨10, Or.inl ⟨rfl, rfl, rfl⟩, hdata⟩
  · trivial

def askActions : List (FleetAction Bool 2 Unit) := overheardActions (interestMessage 7 10 false)

def askArrival : SmartData.Arrival := ⟨⟨pairMac false, 5⟩, 3, interestMessage 7 10 false⟩

/-- A producer in the other vehicle takes it, and binds what was wanted. -/
theorem binds_what_was_wanted_askActions :
    ∃ F : Fleet Bool 2 Unit, run Fleet.step TenOnly pair askActions = some F ∧
      ∃ s, run Demand.step (Demand.Takes (· = askArrival)) (Demand.initial 7 3500000 4)
          [.update askArrival, .clear, .apply 0] = some s ∧
        ∃ b ∈ s.producer.cache.bindings, b.address = ⟨pairMac false, 5⟩ ∧
          ∃ periodUs, (∃ w q, OnlyTen w q periodUs) ∧
            b.periodUs = BindingCache.atLeastOne periodUs := by
  have hrun : (run Fleet.step TenOnly pair askActions).map (fun F ↦
      (F.shown true listener).filterMap messageShown) =
        some [(.shm, 0, maxSize,
          ⟨[2, 0, 0, 0, 0, 0], 5, 1, 3, interestMessage 7 10 false⟩)] := by
    decide +kernel
  have htaken : (run Demand.step (Demand.Takes (· = askArrival)) (Demand.initial 7 3500000 4)
      [.update askArrival, .clear, .apply 0]).map (fun s ↦ s.producer.cache.bindings) =
        some [⟨7, ⟨pairMac false, 5⟩, 10, 3500000000⟩] := by
    decide +kernel
  obtain ⟨F, hF, hshown⟩ := Option.map_eq_some_iff.mp hrun
  obtain ⟨s, hs, hbindings⟩ := Option.map_eq_some_iff.mp htaken
  obtain ⟨held, -, hgets⟩ := F.gets_of_shown (by rw [hshown]; exact List.mem_singleton_self _)
  have hhands : F.Hands true listener askArrival := ⟨_, held, _, hgets, rfl, rfl, rfl, rfl⟩
  have hserves : Reaches Demand.step (Demand.Takes (F.Hands true listener))
      (Demand.initial 7 3500000 4) s :=
    (reaches_of_run _ hs).mono fun _ _ htakes ↦ htakes.mono fun _ hm ↦ hm ▸ hhands
  have hdemands : Reaches Fleet.step (Demands 7 OnlyTen) pair F :=
    (reaches_of_run askActions hF).mono fun _ _ h ↦ h.demands
  have hb : (⟨7, ⟨pairMac false, 5⟩, 10, 3500000000⟩ : Binding) ∈ s.producer.cache.bindings := by
    rw [hbindings]
    exact List.mem_singleton_self _
  obtain ⟨a, -, -, n, source, request, route, -, haddress, -, periodUs, hwants, hperiod, -⟩ :=
    binds_what_was_wanted (by decide) hdemands hserves _ hb
  exact ⟨F, hF, s, hs, _, hb, rfl, periodUs, hwants, hperiod⟩

end VehicleComm.Traffic
