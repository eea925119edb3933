import VehicleComm.SmartData.Periods

/-!
# One consumer and one producer

A consumer `SmartData` with `auto_refresh` and a producer `SmartData` of the same unit in range of
each other, with their loops, on one clock: the consumer's refresh, the producer's reaper and the
thread that responds (`Subscription`). There is no loss and no delay: a message that was sent is
handled before the clock goes on, and so is a job that is due; the order of what happens at one time
is arbitrary. The objects are constructed at any time and in any order. The thread that responds and
the reaper start after any delay, the consumer's refresh within its period, so all phases occur. A
response reaches the consumer in the step in which it is sent.

Times are nanoseconds. What the consumer does past `unsubscribe` is only the messages of
disinterest, any number of them.

For every period the bindings in the cache are those of the consumer, and its next refresh is at
most a period away (`Wired`).
-/

set_option autoImplicit false
set_option relaxedAutoImplicit false

namespace VehicleComm.SmartData

open Library Channel VehicleComm.Core BindingCache

/-! ### The interest message -/

/-- The payload of `SmartData::send_interest`. -/
def interestMessage (unit : UInt32) (periodUs : UInt64) (disinterest : Bool) : List UInt8 :=
  interestKind :: (octetsOf 4 unit.toUInt64 ++ octetsOf 8 periodUs ++
    [if disinterest then 1 else 0])

theorem length_octetsOf (count : ℕ) (value : UInt64) : (octetsOf count value).length = count := by
  rw [octetsOf, List.length_map, List.length_range]

theorem fromLittleEndian_octetsOf_four (unit : UInt32) :
    (fromLittleEndian (octetsOf 4 unit.toUInt64)).toUInt32 = unit := by
  have hvalue : unit.toUInt64.toNat < 2 ^ 32 := by
    rw [UInt32.toNat_toUInt64]
    exact unit.toNat_lt
  have hcons : octetsOf 4 unit.toUInt64 = [
      (unit.toUInt64 >>> UInt64.ofNat (8 * 0)).toUInt8,
      (unit.toUInt64 >>> UInt64.ofNat (8 * 1)).toUInt8,
      (unit.toUInt64 >>> UInt64.ofNat (8 * 2)).toUInt8,
      (unit.toUInt64 >>> UInt64.ofNat (8 * 3)).toUInt8] := rfl
  have h0 := toNat_octet unit.toUInt64 (i := 0) (by omega)
  have h1 := toNat_octet unit.toUInt64 (i := 1) (by omega)
  have h2 := toNat_octet unit.toUInt64 (i := 2) (by omega)
  have h3 := toNat_octet unit.toUInt64 (i := 3) (by omega)
  have hnone : fromLittleEndian [] = 0 := rfl
  have hsum : (fromLittleEndian (octetsOf 4 unit.toUInt64)).toNat = unit.toUInt64.toNat := by
    rw [hcons, fromLittleEndian_cons, fromLittleEndian_cons, fromLittleEndian_cons,
      fromLittleEndian_cons, hnone]
    have hlast := toNat_appendOctet (k := 0) (by decide)
      (unit.toUInt64 >>> UInt64.ofNat (8 * 3)).toUInt8
    rw [h3, UInt64.toNat_zero] at hlast
    have hthird := toNat_appendOctet (k := appendOctet 0 _) (by rw [hlast]; omega)
      (unit.toUInt64 >>> UInt64.ofNat (8 * 2)).toUInt8
    rw [h2, hlast] at hthird
    have hsecond := toNat_appendOctet (k := appendOctet (appendOctet 0 _) _) (by rw [hthird]; omega)
      (unit.toUInt64 >>> UInt64.ofNat (8 * 1)).toUInt8
    rw [h1, hthird] at hsecond
    rw [toNat_appendOctet (by rw [hsecond]; omega), h0, hsecond]
    omega
  apply UInt32.toNat_inj.mp
  rw [UInt64.toNat_toUInt32, hsum, Nat.mod_eq_of_lt hvalue, UInt32.toNat_toUInt64]

section Message

variable (unit : UInt32) (periodUs : UInt64) (disinterest : Bool)

theorem length_interestMessage :
    (interestMessage unit periodUs disinterest).length = interestMessageSize := by
  rw [interestMessage, List.length_cons, List.length_append, List.length_append, length_octetsOf,
    length_octetsOf]
  rfl

theorem headerUnit_interestMessage :
    headerUnit (interestMessage unit periodUs disinterest) = unit := by
  have hslice : slice (interestMessage unit periodUs disinterest) 1 4 =
      octetsOf 4 unit.toUInt64 := by
    rw [slice, interestMessage, List.drop_succ_cons, List.drop_zero, List.append_assoc,
      List.take_left' (length_octetsOf 4 _)]
  rw [headerUnit, hslice, fromLittleEndian_octetsOf_four]

theorem interestPeriod_interestMessage :
    interestPeriod (interestMessage unit periodUs disinterest) = periodUs := by
  have hslice : slice (interestMessage unit periodUs disinterest) 5 8 = octetsOf 8 periodUs := by
    rw [slice, interestMessage, List.drop_succ_cons, List.append_assoc,
      List.drop_left' (length_octetsOf 4 _), List.take_left' (length_octetsOf 8 _)]
  rw [interestPeriod, hslice, fromLittleEndian_octetsOf]

theorem isDisinterest_interestMessage :
    isDisinterest (interestMessage unit periodUs disinterest) = disinterest := by
  have hlength : (octetsOf 4 unit.toUInt64 ++ octetsOf 8 periodUs).length = 12 := by
    rw [List.length_append, length_octetsOf, length_octetsOf]
  have hlast : (interestMessage unit periodUs disinterest).getD 13 0 =
      if disinterest then 1 else 0 := by
    rw [interestMessage, List.getD_cons_succ, List.getD_append_right _ _ _ _ hlength.le, hlength]
    rfl
  rw [isDisinterest, hlast]
  cases disinterest <;> rfl

/-- A producer of the unit handles the message. -/
theorem handles_interestMessage {P : Producer} {m : Arrival} (hunit : P.unit = unit)
    (hdata : m.data = interestMessage unit periodUs disinterest) : P.handles m = true := by
  have hlength := length_interestMessage unit periodUs disinterest
  have hkind : headerKind (interestMessage unit periodUs disinterest) = interestKind := rfl
  rw [Producer.handles, isInterest, hdata, headerUnit_interestMessage, hlength, hkind, hunit]
  simp [smartHeaderSize, interestMessageSize]

end Message

/-! ### The steps of the producer -/

namespace Producer

variable {P P' : Producer} {m : Arrival} {nowNs : Int64}

theorem step_update (hhandles : P.handles m = true) (hstep : P.step (.update m) = some P') :
    P.handling = .idle ∧ P' = { P with
      lastSeenQuad := m.quadrant
      handling := if P.lastSeenQuad ≠ m.quadrant then .clearing m else .applying m } := by
  rw [step] at hstep
  split at hstep
  · rename_i hidle
    obtain rfl := Option.some.inj hstep
    rw [Producer.update, if_pos hhandles]
    exact ⟨hidle, rfl⟩
  · cases hstep

theorem step_clear (hstep : P.step .clear = some P') :
    ∃ m, P.handling = .clearing m ∧
      P' = { P with cache := P.cache.clear, handling := .applying m } := by
  rw [step] at hstep
  split at hstep
  · rename_i m hclearing
    exact ⟨m, hclearing, (Option.some.inj hstep).symm⟩
  · cases hstep

theorem step_apply (hstep : P.step (.apply nowNs) = some P') :
    ∃ m, P.handling = .applying m ∧
      P' = { P.operate (P.operation m nowNs) with handling := .idle } := by
  rw [step] at hstep
  split at hstep
  · rename_i m happlying
    exact ⟨m, happlying, (Option.some.inj hstep).symm⟩
  · cases hstep

theorem settings_operate (hnamed : P.cache.Named) (operation : CacheOperation) :
    (P.operate operation).unit = P.unit ∧
      (P.operate operation).cache.lifetimeMinUs = P.cache.lifetimeMinUs ∧
      (P.operate operation).cache.lifetimeFactor = P.cache.lifetimeFactor :=
  ⟨rfl, settings_apply hnamed operation⟩

end Producer

/-! ### The two of them -/

/-- `Smart_Config::INTEREST_REFRESH_US`, in nanoseconds. -/
def interestRefreshNs : ℕ := 1000000000

/-- `Smart_Config::REAPER_PERIOD_US`, in nanoseconds. -/
def reaperPeriodNs : ℕ := 1000000000

structure Request where
  unit : UInt32
  address : Endpoint
  periodUs : UInt64
  positive : 1 ≤ periodUs

def Request.periodNs (r : Request) : ℕ := 1000 * r.periodUs.toNat

def Request.leaseNs (r : Request) : ℕ := 1000 * leaseUs r.periodUs.toNat

theorem Request.atLeastOne_periodUs (r : Request) : atLeastOne r.periodUs = r.periodUs := by
  refine if_neg fun hzero ↦ ?_
  have hpositive := r.positive
  rw [hzero] at hpositive
  exact absurd hpositive (by decide)

/-- The consumer: `_last_response_ns`, and when `_refresh` runs its next job. -/
structure Refresh where
  lastResponseNs : ℕ
  refreshAt : ℕ
deriving DecidableEq

/-- The clock, the producer, when its reaper makes its next pass (not before the producer is
constructed), when the thread with a number runs its next job (not before its first), the consumer,
whether it has unsubscribed, and the messages in flight to the producer. -/
structure Subscription where
  now : ℕ
  producer : Producer
  reaperAt : Option ℕ
  respondAt : Option (ℕ × ℕ)
  consumer : Option Refresh
  unsubscribed : Bool
  inFlight : List Arrival

/-- What may happen: time passes; an object is constructed; a loop runs its job; the receive thread
of the producer makes a step of `update`; the consumer unsubscribes. A message of the consumer
arrives with the quadrant given. -/
inductive SubscriptionAction
  | elapse (d : ℕ)
  | startProducer (delay : ℕ)
  | startConsumer (delay : ℕ) (quadrant : UInt8)
  | reactiveTick (quadrant : UInt8)
  | respond
  | update
  | clear
  | apply
  | reap
  | unsubscribe
  | sendDisinterest (quadrant : UInt8)

namespace Subscription

variable (r : Request)

def initial : Subscription :=
  ⟨0, .initial r.unit bindingLifetimeMinUs bindingLifetimeFactor, none, none, none, false, []⟩

/-- Every message that was sent has been handled. -/
def Calm (s : Subscription) : Prop := s.inFlight = [] ∧ s.producer.handling = .idle

instance (s : Subscription) : Decidable s.Calm := inferInstanceAs (Decidable (_ ∧ _))

/-- When the thread that responds runs its next job, if it has run one. -/
def respondDue (s : Subscription) : Option ℕ :=
  match s.producer.cache.threads[r.unit]?, s.respondAt with
  | some thread, some (id, due) => if id = thread.id then some due else none
  | _, _ => none

def Allows (s : Subscription) (time : ℕ) : Prop :=
  (∀ due ∈ s.reaperAt, time ≤ due) ∧ (∀ due ∈ s.respondDue r, time ≤ due) ∧
    (s.unsubscribed = false → ∀ c ∈ s.consumer, time ≤ c.refreshAt)

instance (s : Subscription) (time : ℕ) : Decidable (s.Allows r time) :=
  inferInstanceAs (Decidable (_ ∧ _ ∧ _))

/-- `send_interest`. Without a producer nobody hears it. -/
def sendInterest (s : Subscription) (quadrant : UInt8) (disinterest : Bool) : Subscription :=
  { s with
    inFlight :=
      if s.reaperAt = none then s.inFlight
      else s.inFlight ++ [⟨r.address, quadrant, interestMessage r.unit r.periodUs disinterest⟩] }

/-- `reactive_tick`, of a consumer that runs its next one a period later. -/
def reactiveTick (s : Subscription) (c : Refresh) (quadrant : UInt8) : Subscription :=
  let t := { s with consumer := some { c with refreshAt := c.refreshAt + interestRefreshNs } }
  if c.lastResponseNs + interestRefreshNs ≤ s.now then t.sendInterest r quadrant false else t

/-- `respond`, by a thread that runs its next job a period later, and `update` of the consumer. -/
def respond (s : Subscription) (thread : PeriodicThread) : Subscription :=
  { s with
    respondAt := some (thread.id, s.now + 1000 * thread.periodUs.toNat)
    consumer := s.consumer.map fun c ↦ { c with lastResponseNs := s.now } }

def step (s : Subscription) : SubscriptionAction → Option Subscription
  | .elapse d => if s.Calm ∧ s.Allows r (s.now + d) then some { s with now := s.now + d } else none
  | .startProducer delay =>
    match s.reaperAt with
    | none => some { s with reaperAt := some (s.now + delay + reaperPeriodNs) }
    | some _ => none
  | .startConsumer delay quadrant =>
    match s.consumer with
    | none =>
      if delay ≤ interestRefreshNs then
        some ({ s with consumer := some ⟨s.now, s.now + delay⟩ }.sendInterest r quadrant false)
      else none
    | some _ => none
  | .reactiveTick quadrant =>
    match s.consumer with
    | none => none
    | some c =>
      if s.unsubscribed = false ∧ c.refreshAt = s.now then some (s.reactiveTick r c quadrant)
      else none
  | .respond =>
    match s.producer.cache.threads[r.unit]? with
    | none => none
    | some thread => if ∀ due ∈ s.respondDue r, due = s.now then some (s.respond thread) else none
  | .update =>
    match s.inFlight with
    | [] => none
    | m :: rest =>
      (s.producer.step (.update m)).map fun P ↦ { s with producer := P, inFlight := rest }
  | .clear => (s.producer.step .clear).map fun P ↦ { s with producer := P }
  | .apply =>
    (s.producer.step (.apply (Int64.ofNat s.now))).map fun P ↦ { s with producer := P }
  | .reap =>
    if s.reaperAt = some s.now then
      (s.producer.step (.reap (Int64.ofNat s.now))).map fun P ↦
        { s with producer := P, reaperAt := some (s.now + reaperPeriodNs) }
    else none
  | .unsubscribe =>
    match s.consumer with
    | none => none
    | some _ => some { s with unsubscribed := true }
  | .sendDisinterest quadrant =>
    if s.unsubscribed then some (s.sendInterest r quadrant true) else none

/-- Every interest message carries the quadrant of the last one or finds no binding, and the leases
are in the range of the clock. -/
def Undisturbed (s : Subscription) : SubscriptionAction → Prop
  | .update => ∀ m ∈ s.inFlight.head?, s.producer.SameQuadrant (.update m)
  | .apply => s.now + r.leaseNs < 2 ^ 63
  | _ => True

instance (s : Subscription) (action : SubscriptionAction) : Decidable (s.Undisturbed r action) := by
  cases action with
  | update => exact inferInstanceAs (Decidable (∀ m ∈ s.inFlight.head?, _))
  | apply => exact inferInstanceAs (Decidable (_ < _))
  | _ => exact isTrue trivial

/-- The binding of the consumer is in the cache, and the thread with a number responds to its unit.
-/
def Bound (id : ℕ) (s : Subscription) : Prop :=
  (∃ b ∈ s.producer.cache.bindings, b.key = (r.unit, r.address)) ∧
    ∃ thread, s.producer.cache.threads[r.unit]? = some thread ∧ thread.id = id

inductive Stepped (s : Subscription) : SubscriptionAction → Subscription → Prop
  | elapse (d : ℕ) (hcalm : s.Calm) (hallowed : s.Allows r (s.now + d)) :
    Stepped s (.elapse d) { s with now := s.now + d }
  | startProducer (delay : ℕ) (hnone : s.reaperAt = none) :
    Stepped s (.startProducer delay) { s with reaperAt := some (s.now + delay + reaperPeriodNs) }
  | startConsumer (delay : ℕ) (quadrant : UInt8) (hnone : s.consumer = none)
    (hdelay : delay ≤ interestRefreshNs) :
    Stepped s (.startConsumer delay quadrant)
      ({ s with consumer := some ⟨s.now, s.now + delay⟩ }.sendInterest r quadrant false)
  | reactiveTick (c : Refresh) (quadrant : UInt8) (hc : s.consumer = some c)
    (hdue : c.refreshAt = s.now) :
    Stepped s (.reactiveTick quadrant) (s.reactiveTick r c quadrant)
  | respond (thread : PeriodicThread) (hthread : s.producer.cache.threads[r.unit]? = some thread)
    (hdue : ∀ due ∈ s.respondDue r, due = s.now) : Stepped s .respond (s.respond thread)
  | update (m : Arrival) (rest : List Arrival) (P : Producer) (hflight : s.inFlight = m :: rest)
    (hP : s.producer.step (.update m) = some P) :
    Stepped s .update { s with producer := P, inFlight := rest }
  | clear (P : Producer) (hP : s.producer.step .clear = some P) :
    Stepped s .clear { s with producer := P }
  | apply (P : Producer) (hP : s.producer.step (.apply (Int64.ofNat s.now)) = some P) :
    Stepped s .apply { s with producer := P }
  | reap (P : Producer) (hdue : s.reaperAt = some s.now)
    (hP : s.producer.step (.reap (Int64.ofNat s.now)) = some P) :
    Stepped s .reap { s with producer := P, reaperAt := some (s.now + reaperPeriodNs) }
  | unsubscribe (c : Refresh) (hc : s.consumer = some c) :
    Stepped s .unsubscribe { s with unsubscribed := true }
  | sendDisinterest (quadrant : UInt8) (hgone : s.unsubscribed = true) :
    Stepped s (.sendDisinterest quadrant) (s.sendInterest r quadrant true)

variable {r} {s t : Subscription}

theorem stepped_of_step {action : SubscriptionAction} (hstep : s.step r action = some t) :
    Stepped r s action t := by
  cases action with
  | elapse d =>
    rw [step] at hstep
    split_ifs at hstep with hallowed
    obtain rfl := Option.some.inj hstep
    exact .elapse d hallowed.1 hallowed.2
  | startProducer delay =>
    rw [step] at hstep
    split at hstep
    · rename_i hnone
      obtain rfl := Option.some.inj hstep
      exact .startProducer delay hnone
    · cases hstep
  | startConsumer delay quadrant =>
    rw [step] at hstep
    split at hstep
    · rename_i hnone
      split_ifs at hstep with hdelay
      obtain rfl := Option.some.inj hstep
      exact .startConsumer delay quadrant hnone hdelay
    · cases hstep
  | reactiveTick quadrant =>
    rw [step] at hstep
    split at hstep
    · cases hstep
    · rename_i c hc
      split_ifs at hstep with hdue
      obtain rfl := Option.some.inj hstep
      exact .reactiveTick c quadrant hc hdue.2
  | respond =>
    rw [step] at hstep
    split at hstep
    · cases hstep
    · rename_i thread hthread
      split_ifs at hstep with hdue
      obtain rfl := Option.some.inj hstep
      exact .respond thread hthread hdue
  | update =>
    rw [step] at hstep
    split at hstep
    · cases hstep
    · rename_i m rest hflight
      obtain ⟨P, hP, rfl⟩ := Option.map_eq_some_iff.mp hstep
      exact .update m rest P hflight hP
  | clear =>
    obtain ⟨P, hP, rfl⟩ := Option.map_eq_some_iff.mp hstep
    exact .clear P hP
  | apply =>
    obtain ⟨P, hP, rfl⟩ := Option.map_eq_some_iff.mp hstep
    exact .apply P hP
  | reap =>
    rw [step] at hstep
    split_ifs at hstep with hdue
    obtain ⟨P, hP, rfl⟩ := Option.map_eq_some_iff.mp hstep
    exact .reap P hdue hP
  | unsubscribe =>
    rw [step] at hstep
    split at hstep
    · cases hstep
    · rename_i c hc
      obtain rfl := Option.some.inj hstep
      exact .unsubscribe c hc
  | sendDisinterest quadrant =>
    rw [step] at hstep
    split_ifs at hstep with hgone
    obtain rfl := Option.some.inj hstep
    exact .sendDisinterest quadrant hgone

/-! ### The messages and the bindings -/

variable (r)

/-- A message of the consumer, of disinterest only after `unsubscribe`. -/
def FromConsumer (s : Subscription) (m : Arrival) : Prop :=
  m.address = r.address ∧ ∃ disinterest, m.data = interestMessage r.unit r.periodUs disinterest ∧
    (disinterest = true → s.unsubscribed = true)

/-- What holds between any two steps, for every period: the bindings in the cache are those of the
consumer, and its next refresh is at most a period away. -/
structure Wired (s : Subscription) : Prop where
  kept : s.producer.Kept
  settings : s.producer.unit = r.unit ∧ s.producer.cache.lifetimeMinUs = bindingLifetimeMinUs ∧
    s.producer.cache.lifetimeFactor = bindingLifetimeFactor
  inFlight : ∀ m ∈ s.inFlight, s.FromConsumer r m
  handled : ∀ m, s.producer.handling = .clearing m ∨ s.producer.handling = .applying m →
    s.FromConsumer r m
  expected : ∀ entry lease, s.producer.expected entry = some lease →
    entry = (r.unit, r.address) ∧ lease.1 = r.periodUs
  absent : s.consumer = none ∨ s.reaperAt = none →
    s.Calm ∧ ∀ entry, s.producer.expected entry = none
  gone : s.unsubscribed = true → s.consumer ≠ none
  consumer : ∀ c ∈ s.consumer, c.lastResponseNs ≤ s.now ∧ (s.unsubscribed = false →
    s.now ≤ c.refreshAt ∧ c.refreshAt ≤ s.now + interestRefreshNs)

theorem wired_initial : (initial r).Wired r where
  kept := Producer.kept_initial _ _ _
  settings := ⟨rfl, rfl, rfl⟩
  inFlight := fun _ hm ↦ absurd hm List.not_mem_nil
  handled := fun _ hm ↦ by rcases hm with hm | hm <;> cases hm
  expected := fun _ _ h ↦ by cases h
  absent := fun _ ↦ ⟨⟨rfl, rfl⟩, fun _ ↦ rfl⟩
  gone := fun hgone ↦ by cases hgone
  consumer := fun _ hc ↦ by cases hc

variable {r}

/-- A message of the consumer is sent. -/
theorem Wired.sendInterest (h : s.Wired r) (hconsumer : s.consumer ≠ none) (quadrant : UInt8)
    {disinterest : Bool} (hgone : disinterest = true → s.unsubscribed = true) :
    (s.sendInterest r quadrant disinterest).Wired r where
  kept := h.kept
  settings := h.settings
  inFlight := by
    intro m hm
    have hm : m ∈ if s.reaperAt = none then s.inFlight else s.inFlight ++ [_] := hm
    split_ifs at hm
    · exact h.inFlight m hm
    · rcases List.mem_append.mp hm with hm | hm
      · exact h.inFlight m hm
      · rw [List.mem_singleton.mp hm]
        exact ⟨rfl, disinterest, rfl, hgone⟩
  handled := h.handled
  expected := h.expected
  absent := by
    intro habsent
    have hnone : s.reaperAt = none := habsent.resolve_left hconsumer
    obtain ⟨hcalm, hempty⟩ := h.absent (Or.inr hnone)
    refine ⟨⟨?_, hcalm.2⟩, hempty⟩
    show (if s.reaperAt = none then s.inFlight else _) = []
    rw [if_pos hnone]
    exact hcalm.1
  gone := h.gone
  consumer := h.consumer

/-- A refresh that is due is put off by a period. -/
theorem Wired.putOff (h : s.Wired r) {c : Refresh} (hc : s.consumer = some c)
    (hdue : c.refreshAt = s.now) :
    { s with
      consumer := some { c with refreshAt := c.refreshAt + interestRefreshNs } }.Wired r where
  kept := h.kept
  settings := h.settings
  inFlight := h.inFlight
  handled := h.handled
  expected := h.expected
  absent := fun habsent ↦ h.absent (habsent.imp_left fun hnone ↦ (by cases hnone))
  gone := fun _ ↦ Option.some_ne_none _
  consumer := by
    intro c' hc'
    obtain rfl := Option.some.inj hc'
    refine ⟨(h.consumer c hc).1, fun _ ↦ ?_⟩
    show s.now ≤ c.refreshAt + interestRefreshNs ∧
      c.refreshAt + interestRefreshNs ≤ s.now + interestRefreshNs
    omega

/-- The producer's thread makes a step of `update`, or the reaper a pass. -/
theorem Wired.produce (h : s.Wired r) {P : Producer} {action : ProducerAction}
    {inFlight : List Arrival}
    {reaperAt : Option ℕ} (hstep : s.producer.step action = some P)
    (hguard : s.producer.SameQuadrant action)
    (habsent : s.consumer = none ∨ reaperAt = none →
      (inFlight = [] ∧ P.handling = .idle) ∧ ∀ entry, P.expected entry = none)
    (hflight : ∀ m ∈ inFlight, m ∈ s.inFlight)
    (hsettings : P.unit = s.producer.unit ∧ P.cache.lifetimeMinUs = s.producer.cache.lifetimeMinUs ∧
      P.cache.lifetimeFactor = s.producer.cache.lifetimeFactor)
    (hhandled : ∀ m, P.handling = .clearing m ∨ P.handling = .applying m → s.FromConsumer r m)
    (hexpected : ∀ entry lease, P.expected entry = some lease →
      entry = (r.unit, r.address) ∧ lease.1 = r.periodUs) :
    { s with producer := P, inFlight := inFlight, reaperAt := reaperAt }.Wired r where
  kept := h.kept.step hguard hstep
  settings := ⟨hsettings.1.trans h.settings.1, hsettings.2.1.trans h.settings.2.1,
    hsettings.2.2.trans h.settings.2.2⟩
  inFlight := fun m hm ↦ h.inFlight m (hflight m hm)
  handled := hhandled
  expected := hexpected
  absent := habsent
  gone := h.gone
  consumer := h.consumer

theorem Wired.started (h : s.Wired r)
    (hbusy : ¬(s.Calm ∧ ∀ entry, s.producer.expected entry = none)) :
    ¬(s.consumer = none ∨ s.reaperAt = none) :=
  fun habsent ↦ hbusy (h.absent habsent)

theorem Wired.update (h : s.Wired r) {m : Arrival} {rest : List Arrival} {P : Producer}
    (hflight : s.inFlight = m :: rest) (hguard : s.producer.SameQuadrant (.update m))
    (hstep : s.producer.step (.update m) = some P) :
    { s with producer := P, inFlight := rest }.Wired r := by
  have hm := h.inFlight m (hflight ▸ List.mem_cons_self)
  obtain ⟨-, disinterest, hdata, -⟩ := id hm
  have hhandles := handles_interestMessage r.unit r.periodUs disinterest h.settings.1 hdata
  obtain ⟨-, hP⟩ := Producer.step_update hhandles hstep
  have hstarted := h.started fun hquiet ↦ by
    rw [hquiet.1.1] at hflight
    cases hflight
  refine h.produce hstep hguard (fun habsent ↦ absurd habsent hstarted)
    (fun x hx ↦ hflight ▸ List.mem_cons_of_mem m hx) (by rw [hP]; exact ⟨rfl, rfl, rfl⟩)
    (fun x hx ↦ ?_) (by rw [hP]; exact h.expected)
  rw [hP] at hx
  have hsame : x = m := by
    dsimp only at hx
    split_ifs at hx with hquadrant
    · exact (hx.resolve_right fun happlying ↦ (by cases happlying)) |> Handling.clearing.inj |>.symm
    · exact (hx.resolve_left fun hclearing ↦ (by cases hclearing)) |> Handling.applying.inj |>.symm
  rw [hsame]
  exact hm

theorem Wired.clear (h : s.Wired r) {P : Producer} (hstep : s.producer.step .clear = some P) :
    { s with producer := P }.Wired r := by
  obtain ⟨m, hclearing, hP⟩ := Producer.step_clear hstep
  have hstarted := h.started fun hquiet ↦ by
    rw [hquiet.1.2] at hclearing
    cases hclearing
  refine h.produce hstep trivial (fun habsent ↦ absurd habsent hstarted) (fun _ hx ↦ hx)
    (by rw [hP]; exact ⟨rfl, rfl, rfl⟩) (fun x hx ↦ ?_) (by rw [hP]; exact h.expected)
  rw [hP] at hx
  obtain rfl : m = x := Handling.applying.inj (hx.resolve_left fun hnot ↦ (by cases hnot))
  exact h.handled m (Or.inl hclearing)

/-- What a message of the consumer asks for. -/
theorem Wired.operation_eq (h : s.Wired r) {m : Arrival} (hm : s.FromConsumer r m) (nowNs : Int64) :
    s.producer.operation m nowNs = .onInterest r.unit r.address r.periodUs nowNs ∨
      s.producer.operation m nowNs = .onDisinterest r.unit r.address ∧ s.unsubscribed = true := by
  obtain ⟨haddress, disinterest, hdata, hgone⟩ := hm
  rw [Producer.operation, hdata, isDisinterest_interestMessage, interestPeriod_interestMessage,
    haddress, h.settings.1]
  cases disinterest with
  | true => exact Or.inr ⟨rfl, hgone rfl⟩
  | false => exact Or.inl rfl

/-- What a message of the consumer makes of the bindings that should be there. -/
theorem Wired.expected_operate (h : s.Wired r) {m : Arrival} (hm : s.FromConsumer r m)
    (nowNs : Int64) :
    (s.producer.operate (s.producer.operation m nowNs)).expected =
        Function.update s.producer.expected (r.unit, r.address)
          (some (r.periodUs, leaseEnd r.periodUs nowNs)) ∨
      (s.producer.operate (s.producer.operation m nowNs)).expected =
          Function.update s.producer.expected (r.unit, r.address) none ∧ s.unsubscribed = true := by
  rcases h.operation_eq hm nowNs with hoperation | ⟨hoperation, hgone⟩
  · refine Or.inl ?_
    rw [hoperation]
    show Function.update s.producer.expected (r.unit, r.address) (some (max r.periodUs 1,
      expiryFor s.producer.cache.lifetimeMinUs s.producer.cache.lifetimeFactor (max r.periodUs 1)
        nowNs)) = _
    rw [h.settings.2.1, h.settings.2.2, max_one, leaseEnd, r.atLeastOne_periodUs]
  · refine Or.inr ⟨?_, hgone⟩
    rw [hoperation]
    rfl

theorem Wired.apply (h : s.Wired r) {P : Producer} {nowNs : Int64}
    (hstep : s.producer.step (.apply nowNs) = some P) : { s with producer := P }.Wired r := by
  obtain ⟨m, happlying, hP⟩ := Producer.step_apply hstep
  have hstarted := h.started fun hquiet ↦ by
    rw [hquiet.1.2] at happlying
    cases happlying
  have hm := h.handled m (Or.inr happlying)
  refine h.produce hstep trivial (fun habsent ↦ absurd habsent hstarted) (fun _ hx ↦ hx) ?_
    (fun x hx ↦ ?_) fun entry lease hentry ↦ ?_
  · rw [hP]
    exact Producer.settings_operate h.kept.responding.named _
  · rw [hP] at hx
    rcases hx with hx | hx <;> cases hx
  · rw [hP] at hentry
    dsimp only at hentry
    by_cases hself : entry = (r.unit, r.address)
    · refine ⟨hself, ?_⟩
      rcases h.expected_operate hm nowNs with hexpected | ⟨hexpected, -⟩
      · rw [hexpected, hself, Function.update_self] at hentry
        rw [← Option.some.inj hentry]
      · rw [hexpected, hself, Function.update_self] at hentry
        cases hentry
    · refine h.expected entry lease ?_
      rcases h.expected_operate hm nowNs with hexpected | ⟨hexpected, -⟩
      · rwa [hexpected, Function.update_of_ne hself] at hentry
      · rwa [hexpected, Function.update_of_ne hself] at hentry

theorem Wired.reap (h : s.Wired r) {P : Producer} {nowNs : Int64} {time : ℕ}
    (hstep : s.producer.step (.reap nowNs) = some P) :
    { s with producer := P, reaperAt := some time }.Wired r := by
  obtain rfl := Option.some.inj hstep
  have hexpected : ∀ entry lease, (s.producer.operate (.reap nowNs)).expected entry = some lease →
      s.producer.expected entry = some lease :=
    fun entry lease hentry ↦ (Option.filter_eq_some_iff.mp hentry).1
  refine h.produce hstep trivial (fun habsent ↦ ?_) (fun _ hx ↦ hx)
    (Producer.settings_operate h.kept.responding.named _) h.handled
    (fun entry lease hentry ↦ h.expected entry lease (hexpected entry lease hentry))
  obtain ⟨hcalm, hempty⟩ := h.absent (habsent.imp_right fun hnone ↦ (by cases hnone))
  refine ⟨hcalm, fun entry ↦ Option.eq_none_iff_forall_ne_some.mpr fun lease hentry ↦ ?_⟩
  have hwas := hexpected entry lease hentry
  rw [hempty entry] at hwas
  cases hwas

/-- Every step keeps the messages and the bindings those of the consumer. -/
theorem Wired.step (h : s.Wired r) {action : SubscriptionAction} (hguard : s.Undisturbed r action)
    (hstep : s.step r action = some t) : t.Wired r := by
  cases stepped_of_step hstep with
  | elapse d _ hallowed =>
    refine ⟨h.kept, h.settings, h.inFlight, h.handled, h.expected, h.absent, h.gone, fun c hc ↦ ?_⟩
    obtain ⟨hlast, hnext⟩ := h.consumer c hc
    refine ⟨Nat.le_add_right_of_le hlast, fun hsubscribed ↦ ⟨hallowed.2.2 hsubscribed c hc, ?_⟩⟩
    exact (hnext hsubscribed).2.trans (by show s.now + _ ≤ s.now + d + _; omega)
  | startProducer delay hnone =>
    exact ⟨h.kept, h.settings, h.inFlight, h.handled, h.expected, fun _ ↦ h.absent (Or.inr hnone),
      h.gone, h.consumer⟩
  | startConsumer delay quadrant hnone hdelay =>
    have hstarted : { s with consumer := some (Refresh.mk s.now (s.now + delay)) }.Wired r := by
      refine ⟨h.kept, h.settings, h.inFlight, h.handled, h.expected,
        fun _ ↦ h.absent (Or.inl hnone),
        fun _ ↦ Option.some_ne_none _, fun c hc ↦ ?_⟩
      obtain rfl := Option.some.inj hc
      exact ⟨le_refl s.now, fun _ ↦ ⟨Nat.le_add_right _ _, Nat.add_le_add_left hdelay _⟩⟩
    exact hstarted.sendInterest (Option.some_ne_none _) quadrant (fun hfalse ↦ (by cases hfalse))
  | reactiveTick c quadrant hc hdue =>
    rw [Subscription.reactiveTick]
    split_ifs
    · exact (h.putOff hc hdue).sendInterest (Option.some_ne_none _) quadrant
        (fun hfalse ↦ (by cases hfalse))
    · exact h.putOff hc hdue
  | respond thread hthread _ =>
    refine ⟨h.kept, h.settings, h.inFlight, h.handled, h.expected,
      fun habsent ↦ h.absent (habsent.imp_left Option.map_eq_none_iff.mp),
      fun hgone ↦ mt Option.map_eq_none_iff.mp (h.gone hgone), fun c' hc' ↦ ?_⟩
    obtain ⟨c, hc, rfl⟩ := Option.map_eq_some_iff.mp hc'
    exact ⟨le_refl s.now, (h.consumer c hc).2⟩
  | update m rest P hflight hP =>
    have hsame : s.producer.SameQuadrant (.update m) := by
      rw [Undisturbed, hflight] at hguard
      exact hguard m rfl
    exact h.update hflight hsame hP
  | clear P hP => exact h.clear hP
  | apply P hP => exact h.apply hP
  | reap P _ hP => exact h.reap hP
  | unsubscribe c hc =>
    have hfrom : ∀ m, s.FromConsumer r m → { s with unsubscribed := true }.FromConsumer r m := by
      rintro m ⟨haddress, disinterest, hdata, -⟩
      exact ⟨haddress, disinterest, hdata, fun _ ↦ rfl⟩
    refine ⟨h.kept, h.settings, fun m hm ↦ hfrom m (h.inFlight m hm),
      fun m hm ↦ hfrom m (h.handled m hm), h.expected, h.absent,
      fun _ ↦ hc ▸ Option.some_ne_none c, fun c hc ↦ ?_⟩
    exact ⟨(h.consumer c hc).1, fun hfalse ↦ (by cases hfalse)⟩
  | sendDisinterest quadrant hgone => exact h.sendInterest (h.gone hgone) quadrant fun _ ↦ hgone

end Subscription

end VehicleComm.SmartData
