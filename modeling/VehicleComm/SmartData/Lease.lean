import VehicleComm.SmartData.Subscription

/-!
# The lease of a subscribed consumer

Responses put the refresh off: a refresh that is less than a second behind a response sends nothing.
With a period of at least 4/3 s, four windows of a second in a row do not all see a response, so the
fifth refresh after a renewal sends at the latest, five seconds after the renewal (`Paced`), and the
lease of four periods is longer than that. The binding stays in the cache, with the thread that
responds, until the consumer unsubscribes (`binding_stays`).

The responder, the refresh and the reaper run at any phases to each other. Their jobs run when they
are due, messages take no time and none is lost, and the messages that find a binding carry the
quadrant of the one before (`Undisturbed`), so that what remains is the race of the refresh and the
lease. What happens with shorter periods is in `SmartData.Lapse`.
-/

set_option autoImplicit false
set_option relaxedAutoImplicit false

namespace VehicleComm.SmartData

open Library Channel VehicleComm.Core BindingCache

/-- A lease is at least four periods. -/
theorem Request.four_periods_le (r : Request) : 4 * r.periodNs ≤ r.leaseNs := by
  have hlease : 4 * max r.periodUs.toNat 1 ≤ leaseUs r.periodUs.toNat := le_max_left _ _
  rw [Request.periodNs, Request.leaseNs]
  omega

namespace Subscription

variable (r : Request)

/-- The refresh of a consumer, counted from `base`: `k` refreshes are past, each of which but the
first was put off by a response in the second before it, so the last response is at least `k - 2`
periods after `base`, and at least `k - 1` periods when it puts the next refresh off. After a
response past `base` the next one is a period away. -/
structure Paced (s : Subscription) (c : Refresh) (base k : ℕ) : Prop where
  refreshAt : c.refreshAt = base + k * interestRefreshNs
  past : 2 ≤ k → base + (k - 2) * r.periodNs < c.lastResponseNs
  next : 1 ≤ k → c.refreshAt < c.lastResponseNs + interestRefreshNs →
    base + (k - 1) * r.periodNs < c.lastResponseNs
  due : base < c.lastResponseNs → ∃ due, s.respondDue r = some due ∧
    c.lastResponseNs + r.periodNs ≤ due

/-- A lease that was renewed at a time is going to be renewed: by a message that is on its way, or
by one of the next refreshes. -/
def Renewed (s : Subscription) (c : Refresh) (renewed : ℕ) : Prop :=
  (¬s.Calm ∧ s.now ≤ renewed + 5 * interestRefreshNs) ∨
    ∃ k base, k ≤ 4 ∧ base ≤ renewed + interestRefreshNs ∧ s.Paced r c base k

/-- What holds between any two steps up to `unsubscribe`. -/
def Leased (s : Subscription) : Prop :=
  s.unsubscribed = false → ∀ c ∈ s.consumer, ∀ lease,
    s.producer.expected (r.unit, r.address) = some lease →
      ∃ renewed : ℕ, lease.2.toInt = renewed + r.leaseNs ∧ s.Renewed r c renewed

theorem leased_initial : (initial r).Leased r := fun _ _ hc ↦ by cases hc

variable {r} {s t : Subscription}

/-- Before the next refresh five seconds have not passed since the renewal. -/
theorem Renewed.now_le (hwired : s.Wired r) (hsubscribed : s.unsubscribed = false) {c : Refresh}
    (hc : s.consumer = some c) {renewed : ℕ} (h : s.Renewed r c renewed) :
    s.now ≤ renewed + 5 * interestRefreshNs := by
  rcases h with ⟨-, hpending⟩ | ⟨k, base, hk, hbase, hpaced⟩
  · exact hpending
  · have hnow := ((hwired.consumer c hc).2 hsubscribed).1
    have hcount : k * interestRefreshNs ≤ 4 * interestRefreshNs := Nat.mul_le_mul_right _ hk
    rw [hpaced.refreshAt] at hnow
    omega

/-- A refresh that is put off is at most the fourth. -/
theorem Paced.putOff (hlong : 4 * interestRefreshNs ≤ 3 * r.periodNs) {c : Refresh} {base k : ℕ}
    (h : s.Paced r c base k) (hk : k ≤ 4) (hlast : c.lastResponseNs ≤ s.now)
    (hdue : c.refreshAt = s.now) (hsilent : s.now < c.lastResponseNs + interestRefreshNs) :
    k + 1 ≤ 4 ∧ { s with
      consumer := some { c with refreshAt := c.refreshAt + interestRefreshNs } }.Paced r
        { c with refreshAt := c.refreshAt + interestRefreshNs } base (k + 1) := by
  obtain ⟨hrefresh, hpast, hnext, hrespond⟩ := h
  have hseen : 1 ≤ k → base + (k - 1) * r.periodNs < c.lastResponseNs := by
    intro hone
    exact hnext hone (by rw [hdue]; exact hsilent)
  have hfew : k + 1 ≤ 4 := by
    by_contra hmany
    obtain rfl : k = 4 := by omega
    have hfour := hseen (by omega)
    omega
  refine ⟨hfew, ?_, fun htwo ↦ ?_, fun _ hput ↦ ?_, hrespond⟩
  · show c.refreshAt + interestRefreshNs = base + (k + 1) * interestRefreshNs
    rw [hrefresh]
    ring
  · have hone : k + 1 - 2 = k - 1 := by omega
    rw [hone]
    exact hseen (by omega)
  · -- the next refresh is a whole second away from the last response
    have hput : c.refreshAt + interestRefreshNs < c.lastResponseNs + interestRefreshNs := hput
    omega

/-- A response is a period behind the last one, or the first of its thread. -/
theorem Paced.respond (hwired : s.Wired r) {c : Refresh} (hc : s.consumer = some c) {base k : ℕ}
    (h : s.Paced r c base k) {thread : PeriodicThread}
    (hthread : s.producer.cache.threads[r.unit]? = some thread)
    (hperiod : thread.periodUs = r.periodUs) (hdue : ∀ due ∈ s.respondDue r, due = s.now) :
    (s.respond thread).Paced r { c with lastResponseNs := s.now } base k := by
  obtain ⟨hrefresh, hpast, hnext, hrespond⟩ := h
  have hlast := (hwired.consumer c hc).1
  -- a response past `base` is followed by one a period later
  have hlater : base < c.lastResponseNs → c.lastResponseNs + r.periodNs ≤ s.now := by
    intro hresponse
    obtain ⟨due, hwhen, hle⟩ := hrespond hresponse
    rwa [hdue due hwhen] at hle
  refine ⟨hrefresh, fun htwo ↦ lt_of_lt_of_le (hpast htwo) hlast, fun hone hput ↦ ?_, fun _ ↦ ?_⟩
  · have hput : c.refreshAt < s.now + interestRefreshNs := hput
    show base + (k - 1) * r.periodNs < s.now
    by_cases htwo : 2 ≤ k
    · have hbefore := hpast htwo
      have hresponse := hlater (lt_of_le_of_lt (Nat.le_add_right _ _) hbefore)
      obtain ⟨j, rfl⟩ : ∃ j, k = j + 2 := ⟨k - 2, by omega⟩
      have hperiods : (j + 2 - 1) * r.periodNs = (j + 2 - 2) * r.periodNs + r.periodNs := by
        show (j + 1) * r.periodNs = j * r.periodNs + r.periodNs
        ring
      omega
    · obtain rfl : k = 1 := by omega
      omega
  · refine ⟨s.now + r.periodNs, ?_, le_refl _⟩
    have hpresent : (s.respond thread).producer.cache.threads[r.unit]? = some thread := hthread
    rw [respondDue, hpresent]
    show (if thread.id = thread.id then some (s.now + 1000 * thread.periodUs.toNat) else none) = _
    rw [if_pos rfl, hperiod, Request.periodNs]

/-! ### The thread that responds -/

/-- An entry of the cache has a binding. -/
theorem Wired.exists_binding (h : s.Wired r) {lease : UInt64 × Int64}
    (hlease : s.producer.expected (r.unit, r.address) = some lease) :
    (⟨r.unit, r.address, lease.1, lease.2⟩ : Binding) ∈ s.producer.cache.bindings :=
  (h.kept.agrees.mem_iff h.kept.responding.unique _ _ _ _).mpr hlease

/-- A binding is an entry of the cache. -/
theorem Wired.exists_lease (h : s.Wired r) {b : Binding} (hb : b ∈ s.producer.cache.bindings)
    (hkey : b.key = (r.unit, r.address)) :
    s.producer.expected (r.unit, r.address) = some (b.periodUs, b.expiryNs) := by
  rw [← hkey]
  exact (h.kept.agrees.mem_iff h.kept.responding.unique _ _ _ _).mp hb

/-- The thread has the period of the consumer. -/
theorem Wired.periodUs_eq (h : s.Wired r) {thread : PeriodicThread}
    (hthread : s.producer.cache.threads[r.unit]? = some thread) : thread.periodUs = r.periodUs := by
  have hleast := h.kept.responding.threads r.unit
  rw [hthread] at hleast
  obtain ⟨⟨b, hb, -, hperiod⟩, -⟩ := hleast.isLeast
  have hentry := (h.kept.agrees.mem_iff h.kept.responding.unique b.unit b.address b.periodUs
    b.expiryNs).mp hb
  rw [← hperiod]
  exact (h.expected _ _ hentry).2

/-- An operation that leaves the consumer registered keeps the thread. -/
theorem Wired.same_thread (h : s.Wired r) (ht : t.Wired r) (operation : CacheOperation)
    (hcache : t.producer.cache = s.producer.cache.apply operation) (hclear : operation ≠ .clear)
    {lease lease' : UInt64 × Int64} (hlease : s.producer.expected (r.unit, r.address) = some lease)
    (hlease' : t.producer.expected (r.unit, r.address) = some lease') :
    ∃ was thread, s.producer.cache.threads[r.unit]? = some was ∧
      t.producer.cache.threads[r.unit]? = some thread ∧ thread.id = was.id := by
  rw [hcache]
  refine h.kept.responding.same_thread hclear ⟨_, _, h.exists_binding hlease, rfl, rfl⟩
    ⟨lease'.1, ⟨r.unit, r.address, lease'.1, lease'.2⟩, ?_, rfl, rfl⟩
  rw [← hcache]
  exact ht.exists_binding hlease'

/-- The same thread runs its next job at the same time. -/
theorem respondDue_of_same {was thread : PeriodicThread}
    (hwas : s.producer.cache.threads[r.unit]? = some was)
    (hthread : t.producer.cache.threads[r.unit]? = some thread) (hid : thread.id = was.id)
    (hrespond : t.respondAt = s.respondAt) : t.respondDue r = s.respondDue r := by
  rw [respondDue, respondDue, hwas, hthread, hrespond]
  cases s.respondAt with
  | none => rfl
  | some next =>
    show (if next.1 = thread.id then some next.2 else none) =
      if next.1 = was.id then some next.2 else none
    rw [hid]

/-! ### The invariant -/

theorem Leased.elapse (h : s.Leased r) {d : ℕ} (hcalm : s.Calm) :
    { s with now := s.now + d }.Leased r := by
  intro hsubscribed c hc lease hlease
  obtain ⟨renewed, hexpiry, hrenewed⟩ := h hsubscribed c hc lease hlease
  obtain ⟨k, base, hk, hbase, hpaced⟩ := hrenewed.resolve_left fun hpending ↦ hpending.1 hcalm
  exact ⟨renewed, hexpiry, Or.inr ⟨k, base, hk, hbase,
    ⟨hpaced.refreshAt, hpaced.past, hpaced.next, hpaced.due⟩⟩⟩

/-- A refresh sends a message, or it is put off. -/
theorem Leased.reactiveTick (hlong : 4 * interestRefreshNs ≤ 3 * r.periodNs) (hwired : s.Wired r)
    (h : s.Leased r) {c : Refresh} (hc : s.consumer = some c) (hdue : c.refreshAt = s.now)
    (quadrant : UInt8) : (s.reactiveTick r c quadrant).Leased r := by
  rw [Subscription.reactiveTick]
  split_ifs with hsilent
  · intro hsubscribed c' hc' lease hlease
    obtain ⟨renewed, hexpiry, hrenewed⟩ := h hsubscribed c hc lease hlease
    refine ⟨renewed, hexpiry, Or.inl ⟨fun hcalm ↦ ?_, hrenewed.now_le hwired hsubscribed hc⟩⟩
    -- somebody has heard the message, since the consumer is registered
    have hstarted : s.reaperAt ≠ none := by
      intro hnone
      have hempty := (hwired.absent (Or.inr hnone)).2 (r.unit, r.address)
      rw [show s.producer.expected (r.unit, r.address) = some lease from hlease] at hempty
      cases hempty
    have hflight : (if s.reaperAt = none then s.inFlight else s.inFlight ++ [_]) = [] := hcalm.1
    rw [if_neg hstarted] at hflight
    exact absurd hflight (List.append_ne_nil_of_right_ne_nil _ (List.cons_ne_nil _ _))
  · intro hsubscribed c' hc' lease hlease
    obtain rfl := Option.some.inj hc'
    obtain ⟨renewed, hexpiry, hrenewed⟩ := h hsubscribed c hc lease hlease
    refine ⟨renewed, hexpiry, ?_⟩
    rcases hrenewed with hpending | ⟨k, base, hk, hbase, hpaced⟩
    · exact Or.inl hpending
    · obtain ⟨hfew, hputOff⟩ := hpaced.putOff hlong hk (hwired.consumer c hc).1 hdue
        (not_le.mp hsilent)
      exact Or.inr ⟨k + 1, base, hfew, hbase, hputOff⟩

theorem Leased.respond (hwired : s.Wired r) (h : s.Leased r) {thread : PeriodicThread}
    (hthread : s.producer.cache.threads[r.unit]? = some thread)
    (hdue : ∀ due ∈ s.respondDue r, due = s.now) : (s.respond thread).Leased r := by
  intro hsubscribed c' hc' lease hlease
  obtain ⟨c, hc, rfl⟩ := Option.map_eq_some_iff.mp hc'
  obtain ⟨renewed, hexpiry, hrenewed⟩ := h hsubscribed c hc lease hlease
  refine ⟨renewed, hexpiry, ?_⟩
  rcases hrenewed with hpending | ⟨k, base, hk, hbase, hpaced⟩
  · exact Or.inl hpending
  · exact Or.inr ⟨k, base, hk, hbase,
      hpaced.respond hwired hc hthread (hwired.periodUs_eq hthread) hdue⟩

/-- A message is taken by the producer's thread, which goes on with it. -/
theorem Leased.update (hwired : s.Wired r) (h : s.Leased r) {m : Arrival} {rest : List Arrival}
    {P : Producer} (hflight : s.inFlight = m :: rest)
    (hstep : s.producer.step (.update m) = some P) :
    { s with producer := P, inFlight := rest }.Leased r := by
  obtain ⟨-, disinterest, hdata, -⟩ := hwired.inFlight m (hflight ▸ List.mem_cons_self)
  have hhandles := handles_interestMessage r.unit r.periodUs disinterest hwired.settings.1 hdata
  obtain ⟨-, hP⟩ := Producer.step_update hhandles hstep
  intro hsubscribed c hc lease hlease
  rw [hP] at hlease
  obtain ⟨renewed, hexpiry, hrenewed⟩ := h hsubscribed c hc lease hlease
  refine ⟨renewed, hexpiry, Or.inl ⟨fun hcalm ↦ ?_, hrenewed.now_le hwired hsubscribed hc⟩⟩
  have hidle : P.handling = .idle := hcalm.2
  rw [hP] at hidle
  dsimp only at hidle
  split_ifs at hidle

/-- The clearing finds no binding. -/
theorem Leased.clear (hwired : s.Wired r) {P : Producer} (hstep : s.producer.step .clear = some P) :
    { s with producer := P }.Leased r := by
  obtain ⟨m, hclearing, hP⟩ := Producer.step_clear hstep
  intro hsubscribed c hc lease hlease
  rw [hP] at hlease
  have hbinding := hwired.exists_binding hlease
  rw [hwired.kept.clearing m hclearing] at hbinding
  exact absurd hbinding List.not_mem_nil

/-- A message that is applied renews the lease. -/
theorem Leased.apply (hwired : s.Wired r) {P : Producer}
    (hrange : s.now + r.leaseNs < 2 ^ 63)
    (hstep : s.producer.step (.apply (Int64.ofNat s.now)) = some P) :
    { s with producer := P }.Leased r := by
  obtain ⟨m, happlying, hP⟩ := Producer.step_apply hstep
  intro hsubscribed c hc lease hlease
  rw [hP] at hlease
  have hexpected := hwired.expected_operate (hwired.handled m (Or.inr happlying))
    (Int64.ofNat s.now)
  rcases hexpected with hexpected | ⟨-, hgone⟩
  · have hentry : Function.update s.producer.expected (r.unit, r.address)
        (some (r.periodUs, leaseEnd r.periodUs (Int64.ofNat s.now))) (r.unit, r.address) =
          some lease := hexpected ▸ hlease
    rw [Function.update_self] at hentry
    obtain rfl := Option.some.inj hentry
    have hnow : (Int64.ofNat s.now).toInt = s.now := Int64.toInt_ofNat_of_lt (by omega)
    obtain ⟨hlast, hnext⟩ := hwired.consumer c hc
    obtain ⟨hfuture, hnear⟩ := hnext hsubscribed
    refine ⟨s.now, ?_, Or.inr ⟨0, c.refreshAt, Nat.zero_le 4, hnear, ?_, ?_, ?_, ?_⟩⟩
    · have hlease : (r.leaseNs : ℤ) = 1000 * (leaseUs r.periodUs.toNat : ℤ) := by
        rw [Request.leaseNs]
        push_cast
        rfl
      show (leaseEnd r.periodUs (Int64.ofNat s.now)).toInt = s.now + r.leaseNs
      rw [toInt_leaseEnd_of_lt (by rw [hnow]; omega) (by rw [hnow]; omega), hnow, hlease]
    · rw [Nat.zero_mul, Nat.add_zero]
    · exact fun htwo ↦ absurd htwo (by decide)
    · exact fun hone ↦ absurd hone (by decide)
    · intro hresponse
      exact absurd (hresponse.trans_le hlast) (not_lt.mpr hfuture)
  · have hsubscribed : s.unsubscribed = false := hsubscribed
    rw [hgone] at hsubscribed
    cases hsubscribed

/-- A pass of the reaper keeps what it leaves. -/
theorem Leased.reap (hwired : s.Wired r) (h : s.Leased r) {P : Producer} {time : ℕ} {nowNs : Int64}
    (hstep : s.producer.step (.reap nowNs) = some P) :
    { s with producer := P, reaperAt := some time }.Leased r := by
  have hafter : { s with producer := P, reaperAt := some time }.Wired r := hwired.reap hstep
  obtain rfl := Option.some.inj hstep
  intro hsubscribed c hc lease hlease
  have hwas : s.producer.expected (r.unit, r.address) = some lease :=
    (Option.filter_eq_some_iff.mp hlease).1
  obtain ⟨renewed, hexpiry, hrenewed⟩ := h hsubscribed c hc lease hwas
  refine ⟨renewed, hexpiry, ?_⟩
  rcases hrenewed with hpending | ⟨k, base, hk, hbase, hpaced⟩
  · exact Or.inl hpending
  · obtain ⟨was, thread, hthread, hthread', hid⟩ :=
      hwired.same_thread hafter (.reap nowNs) rfl (fun heq ↦ (by cases heq)) hwas hlease
    refine Or.inr ⟨k, base, hk, hbase, hpaced.refreshAt, hpaced.past, hpaced.next, ?_⟩
    rw [respondDue_of_same hthread hthread' hid rfl]
    exact hpaced.due

theorem Leased.step (hlong : 4 * interestRefreshNs ≤ 3 * r.periodNs) (hwired : s.Wired r)
    (h : s.Leased r) {action : SubscriptionAction} (hguard : s.Undisturbed r action)
    (hstep : s.step r action = some t) : t.Leased r := by
  cases stepped_of_step hstep with
  | elapse d hcalm _ => exact h.elapse hcalm
  | startProducer delay _ =>
    intro hsubscribed c hc lease hlease
    obtain ⟨renewed, hexpiry, hrenewed⟩ := h hsubscribed c hc lease hlease
    exact ⟨renewed, hexpiry, hrenewed.imp id fun ⟨k, base, hk, hbase, hpaced⟩ ↦
      ⟨k, base, hk, hbase, hpaced.refreshAt, hpaced.past, hpaced.next, hpaced.due⟩⟩
  | startConsumer delay quadrant hnone _ =>
    intro _ c _ lease hlease
    have hempty := (hwired.absent (Or.inl hnone)).2 (r.unit, r.address)
    rw [show s.producer.expected (r.unit, r.address) = some lease from hlease] at hempty
    cases hempty
  | reactiveTick c quadrant hc hdue => exact h.reactiveTick hlong hwired hc hdue quadrant
  | respond thread hthread hdue => exact h.respond hwired hthread hdue
  | update m rest P hflight hP => exact h.update hwired hflight hP
  | clear P hP => exact Leased.clear hwired hP
  | apply P hP => exact Leased.apply hwired hguard hP
  | reap P _ hP => exact h.reap hwired hP
  | unsubscribe c _ => exact fun hfalse ↦ (by cases hfalse)
  | sendDisinterest quadrant hgone =>
    intro hsubscribed
    rw [show s.unsubscribed = false from hsubscribed] at hgone
    cases hgone

/-! ### The binding stays -/

structure Sound (r : Request) (s : Subscription) : Prop where
  wired : s.Wired r
  leased : s.Leased r

theorem sound_initial (r : Request) : Sound r (initial r) := ⟨wired_initial r, leased_initial r⟩

theorem Sound.step (hlong : 4 * interestRefreshNs ≤ 3 * r.periodNs) (h : Sound r s)
    {action : SubscriptionAction} (hguard : s.Undisturbed r action)
    (hstep : s.step r action = some t) : Sound r t :=
  ⟨h.wired.step hguard hstep, h.leased.step hlong h.wired hguard hstep⟩

/-- The lease of a consumer that has not unsubscribed has not expired. -/
theorem Sound.now_le_expiry (hlong : 4 * interestRefreshNs ≤ 3 * r.periodNs) (h : Sound r s)
    (hsubscribed : s.unsubscribed = false) {lease : UInt64 × Int64}
    (hlease : s.producer.expected (r.unit, r.address) = some lease) :
    Int64.ofNat s.now ≤ lease.2 := by
  have hconsumer : s.consumer ≠ none := by
    intro hnone
    rw [(h.wired.absent (Or.inl hnone)).2] at hlease
    cases hlease
  obtain ⟨c, hc⟩ := Option.ne_none_iff_exists'.mp hconsumer
  obtain ⟨renewed, hexpiry, hrenewed⟩ := h.leased hsubscribed c hc lease hlease
  have hnow := hrenewed.now_le h.wired hsubscribed hc
  have hfour := r.four_periods_le
  have hrange := lease.2.toInt_lt
  have hsecond : interestRefreshNs = 1000000000 := rfl
  rw [Int64.le_iff_toInt_le, Int64.toInt_ofNat_of_lt (by omega)]
  omega

/-- An operation that leaves the consumer registered keeps the binding and the thread. -/
theorem Bound.of_operation (hs : s.Wired r) (ht : t.Wired r) (operation : CacheOperation)
    (hcache : t.producer.cache = s.producer.cache.apply operation) (hclear : operation ≠ .clear)
    {id : ℕ} (hbound : s.Bound r id) (lease : UInt64 × Int64)
    (hlease : t.producer.expected (r.unit, r.address) = some lease) : t.Bound r id := by
  obtain ⟨⟨b, hb, hkey⟩, was, hwas, hid⟩ := hbound
  obtain ⟨was', thread, hwas', hthread, hsame⟩ :=
    hs.same_thread ht operation hcache hclear (hs.exists_lease hb hkey) hlease
  obtain rfl : was = was' := Option.some.inj (hwas.symm.trans hwas')
  exact ⟨⟨_, ht.exists_binding hlease, rfl⟩, thread, hthread, hsame.trans hid⟩

/-- A binding of a consumer that does not unsubscribe outlives a step. -/
theorem Bound.step (hlong : 4 * interestRefreshNs ≤ 3 * r.periodNs) (h : Sound r s)
    {action : SubscriptionAction} (hguard : s.Undisturbed r action)
    (hstep : s.step r action = some t) (hsubscribed : t.unsubscribed = false) {id : ℕ}
    (hbound : s.Bound r id) : t.Bound r id := by
  have ht := h.step hlong hguard hstep
  obtain ⟨b, hb, hkey⟩ := hbound.1
  have hkept : ∀ {t : Subscription}, t.producer.cache = s.producer.cache → t.Bound r id := by
    intro t hcache
    rw [Bound, hcache]
    exact hbound
  cases stepped_of_step hstep with
  | elapse d _ _ => exact hkept rfl
  | startProducer delay _ => exact hkept rfl
  | startConsumer delay quadrant _ _ => exact hkept rfl
  | reactiveTick c quadrant _ _ =>
    rw [Subscription.reactiveTick]
    split_ifs
    · exact hkept rfl
    · exact hkept rfl
  | respond thread _ _ => exact hkept rfl
  | update m rest P hflight hP =>
    obtain ⟨-, disinterest, hdata, -⟩ := h.wired.inFlight m (hflight ▸ List.mem_cons_self)
    obtain ⟨-, hafter⟩ := Producer.step_update
      (handles_interestMessage r.unit r.periodUs disinterest h.wired.settings.1 hdata) hP
    exact hkept (by rw [hafter])
  | clear P hP =>
    obtain ⟨m, hclearing, -⟩ := Producer.step_clear hP
    rw [h.wired.kept.clearing m hclearing] at hb
    exact absurd hb List.not_mem_nil
  | apply P hP =>
    have hstays : s.unsubscribed = false := hsubscribed
    obtain ⟨m, happlying, hafter⟩ := Producer.step_apply hP
    have hm := h.wired.handled m (Or.inr happlying)
    have hnot : s.unsubscribed ≠ true := by simp [hstays]
    have hoperation := (h.wired.operation_eq hm (Int64.ofNat s.now)).resolve_right fun hgone ↦
      hnot hgone.2
    have hexpected := (h.wired.expected_operate hm (Int64.ofNat s.now)).resolve_right fun hgone ↦
      hnot hgone.2
    have hregistered : P.expected (r.unit, r.address) =
        some (r.periodUs, leaseEnd r.periodUs (Int64.ofNat s.now)) := by
      rw [hafter]
      show (s.producer.operate _).expected (r.unit, r.address) = _
      rw [hexpected, Function.update_self]
    refine Bound.of_operation h.wired ht.wired (s.producer.operation m (Int64.ofNat s.now)) ?_ ?_
      hbound _ hregistered
    · show P.cache = _
      rw [hafter]
      rfl
    · rw [hoperation]
      exact fun heq ↦ (by cases heq)
  | reap P _ hP =>
    obtain rfl := Option.some.inj hP
    have hlease := h.wired.exists_lease hb hkey
    have hvalid := h.now_le_expiry hlong hsubscribed hlease
    refine Bound.of_operation h.wired ht.wired (.reap (Int64.ofNat s.now)) rfl
      (fun heq ↦ (by cases heq)) hbound (b.periodUs, b.expiryNs) ?_
    show (s.producer.expected (r.unit, r.address)).filter _ = _
    rw [hlease, Option.filter_some, if_pos (decide_eq_true hvalid)]
  | unsubscribe c _ => exact hkept rfl
  | sendDisinterest quadrant _ => exact hkept rfl

/-- A consumer that has unsubscribed stays so. -/
theorem unsubscribed_step {action : SubscriptionAction} (hstep : s.step r action = some t)
    (hgone : s.unsubscribed = true) : t.unsubscribed = true := by
  cases stepped_of_step hstep with
  | unsubscribe c _ => rfl
  | reactiveTick c quadrant _ _ =>
    rw [Subscription.reactiveTick]
    split_ifs
    · exact hgone
    · exact hgone
  | _ => exact hgone

/-- Assumes: a period of at least 4/3 s; a run to the state `s` in which the consumer is registered,
with the thread `id` for its unit, and on to the state `t`, in which it has not unsubscribed; on the
whole run every interest message carries the quadrant of the last one or finds no binding, and the
leases are in the range of the clock. The binding is still there, and so is the thread. -/
theorem binding_stays (hlong : 4 * interestRefreshNs ≤ 3 * r.periodNs)
    (hrun : Reaches (step r) (Undisturbed r) (initial r) s)
    (hlater : Reaches (step r) (Undisturbed r) s t) {id : ℕ} (hbound : s.Bound r id)
    (hsubscribed : t.unsubscribed = false) : t.Bound r id := by
  have hs : Sound r s := hrun.invariant (P := Sound r)
    (fun _ _ _ h hguard hstep ↦ h.step hlong hguard hstep) (sound_initial r)
  have ht := hlater.invariant (P := fun t ↦ Sound r t ∧ (t.unsubscribed = false → t.Bound r id))
    (fun u action v hu hguard hstep ↦ ?_) ⟨hs, fun _ ↦ hbound⟩
  · exact ht.2 hsubscribed
  · refine ⟨hu.1.step hlong hguard hstep, fun hstays ↦ ?_⟩
    have hbefore : u.unsubscribed = false := by
      by_contra hgone
      have hafter := unsubscribed_step hstep (by simpa using hgone)
      rw [hstays] at hafter
      cases hafter
    exact (hu.2 hbefore).step hlong hu.1 hguard hstep hstays

end Subscription

end VehicleComm.SmartData
