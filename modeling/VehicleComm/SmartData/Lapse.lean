import VehicleComm.SmartData.Lease

/-!
# The lapse of the lease

For every period below 4/3 s there is a run in which the lease of a subscribed consumer lapses. The
refresh and the reaper are due together, a nanosecond before each full second, and the first
response at the first full second (`Waiting`). Every window of a second then sees a response, so
every refresh is put off (`Waiting.round`), and the first pass of the reaper after the lease removes
the binding (`Waiting.lapse`).

The second of the refresh need not be a multiple of the period of the responses, nor the lease of
either, so the run is built round by round: what one hands to the next is when the last response was
and when the next one is due.

So the lease never lapses in any phases exactly for the periods of at least 4/3 s
(`lease_never_lapses_iff`).
-/

set_option autoImplicit false
set_option relaxedAutoImplicit false

namespace VehicleComm.SmartData

open Library Channel VehicleComm.Core BindingCache

namespace Subscription

variable (r : Request)

/-- The consumer is registered, with the lease it got at time 0, and its next refresh is due
together with the next pass of the reaper, at `target`. The next response is due at `due`, or it is
the first of its thread. -/
structure Waiting (s : Subscription) (target last due : ℕ) : Prop where
  wired : s.Wired r
  calm : s.Calm
  subscribed : s.unsubscribed = false
  now_le : s.now ≤ target
  reaperAt : s.reaperAt = some target
  consumer : s.consumer = some ⟨last, target⟩
  due : ∀ d ∈ s.respondDue r, d = due
  lease : ∃ expiry : Int64, s.producer.expected (r.unit, r.address) = some (r.periodUs, expiry) ∧
    expiry.toInt = r.leaseNs

variable {r} {s t : Subscription} {target last due : ℕ}

/-- A single step is a run. -/
theorem reaches_step {action : SubscriptionAction} (hstep : s.step r action = some t)
    (hguard : s.Undisturbed r action) : Reaches (step r) (Undisturbed r) s t :=
  (Reaches.refl s).next action hguard hstep

/-- A consumer with a lease has a thread that responds. -/
theorem Waiting.exists_thread (h : s.Waiting r target last due) :
    ∃ thread, s.producer.cache.threads[r.unit]? = some thread := by
  obtain ⟨expiry, hlease, -⟩ := h.lease
  have hbinding := h.wired.exists_binding hlease
  rw [← Option.ne_none_iff_exists', Ne, ← Option.map_eq_none_iff,
    (h.wired.kept.responding.threads r.unit).eq_none_iff]
  exact Set.Nonempty.ne_empty ⟨_, _, hbinding, rfl, rfl⟩

/-- Time passes up to the next job. -/
theorem Waiting.elapse (h : s.Waiting r target last due) {time : ℕ} (hlater : s.now ≤ time)
    (htarget : time ≤ target) (hdue : time ≤ due) :
    ∃ t, Reaches (step r) (Undisturbed r) s t ∧ t.now = time ∧ t.Waiting r target last due := by
  obtain ⟨d, rfl⟩ := Nat.exists_eq_add_of_le hlater
  have hallowed : s.Allows r (s.now + d) := by
    refine ⟨fun x hx ↦ ?_, fun x hx ↦ ?_, fun _ c hc ↦ ?_⟩
    · rw [h.reaperAt] at hx
      obtain rfl := Option.some.inj hx
      exact htarget
    · rw [h.due x hx]
      exact hdue
    · rw [h.consumer] at hc
      obtain rfl := Option.some.inj hc
      exact htarget
  have hstep : s.step r (.elapse d) = some { s with now := s.now + d } := if_pos ⟨h.calm, hallowed⟩
  exact ⟨_, reaches_step hstep trivial, rfl, h.wired.step (by exact trivial) hstep, h.calm,
    h.subscribed, htarget,
    h.reaperAt, h.consumer, h.due, h.lease⟩

/-- A response that is due is sent. -/
theorem Waiting.respond (h : s.Waiting r target last due) (hnow : s.now = due) :
    ∃ t, Reaches (step r) (Undisturbed r) s t ∧ t.now = due ∧
      t.Waiting r target due (due + r.periodNs) := by
  obtain ⟨thread, hthread⟩ := h.exists_thread
  have hstep : s.step r .respond = some (s.respond thread) := by
    rw [Subscription.step, hthread]
    exact if_pos fun d hd ↦ (h.due d hd).trans hnow.symm
  refine ⟨_, reaches_step hstep trivial, hnow, h.wired.step (by exact trivial) hstep, h.calm,
    h.subscribed,
    h.now_le, h.reaperAt, ?_, fun d hd ↦ ?_, h.lease⟩
  · show s.consumer.map _ = _
    rw [h.consumer, hnow.symm]
    rfl
  · have hpresent : (s.respond thread).producer.cache.threads[r.unit]? = some thread := hthread
    rw [respondDue, hpresent] at hd
    have hd : d ∈ if thread.id = thread.id then some (s.now + 1000 * thread.periodUs.toNat)
        else none :=
      hd
    rw [if_pos rfl, h.wired.periodUs_eq hthread, hnow] at hd
    exact (Option.some.inj hd).symm

theorem Request.periodNs_pos (r : Request) : 0 < r.periodNs := by
  have hpositive := UInt64.le_iff_toNat_le.mp r.positive
  rw [UInt64.toNat_one] at hpositive
  rw [Request.periodNs]
  omega

/-- The responses that are due up to the next refresh are sent. -/
theorem Waiting.responses (h : s.Waiting r target last due) (hlater : s.now ≤ due)
    (hdue : due ≤ target) :
    ∃ t last', Reaches (step r) (Undisturbed r) s t ∧ t.now = last' ∧
      t.Waiting r target last' (last' + r.periodNs) ∧ due ≤ last' ∧ last' ≤ target ∧
      target < last' + r.periodNs ∧ (target < due + r.periodNs → last' = due) := by
  induction hleft : target - due using Nat.strong_induction_on generalizing s last due with
  | _ n ih =>
    obtain ⟨u, hu, hunow, hwait⟩ := h.elapse hlater hdue le_rfl
    obtain ⟨v, hv, hvnow, hrespond⟩ := hwait.respond hunow
    have hpositive := Request.periodNs_pos r
    by_cases hagain : due + r.periodNs ≤ target
    · obtain ⟨t, last', ht, htnow, hnext, hle, hbelow, habove, -⟩ :=
        ih (target - (due + r.periodNs)) (by omega) hrespond (by omega) hagain rfl
      exact ⟨t, last', (hu.trans hv).trans ht, htnow, hnext, by omega, hbelow, habove,
        fun hfar ↦ absurd hagain (not_le.mpr hfar)⟩
    · exact ⟨v, due, hu.trans hv, hvnow, hrespond, le_rfl, hdue, not_le.mp hagain, fun _ ↦ rfl⟩

/-- The time of the next refresh comes. -/
theorem Waiting.arrive (h : s.Waiting r target last due) (hlater : s.now ≤ due) :
    ∃ t last' due', Reaches (step r) (Undisturbed r) s t ∧ t.now = target ∧
      t.Waiting r target last' due' ∧ (due ≤ target → due ≤ last' ∧ last' ≤ target ∧
        due' = last' + r.periodNs ∧ target < due' ∧
        (target < due + r.periodNs → last' = due)) := by
  by_cases hdue : due ≤ target
  · obtain ⟨u, last', hu, hunow, hwait, hle, hbelow, habove, honce⟩ := h.responses hlater hdue
    obtain ⟨t, ht, htnow, harrived⟩ := hwait.elapse (by omega) le_rfl habove.le
    exact ⟨t, last', _, hu.trans ht, htnow, harrived, fun _ ↦ ⟨hle, hbelow, rfl, habove, honce⟩⟩
  · obtain ⟨t, ht, htnow, harrived⟩ := h.elapse h.now_le le_rfl (by omega)
    exact ⟨t, last, due, ht, htnow, harrived, fun hnot ↦ absurd hnot hdue⟩

/-- The reaper makes its pass. -/
theorem Waiting.step_reap (h : s.Waiting r target last due) (hnow : s.now = target) :
    s.step r .reap = some { s with
      producer := s.producer.operate (.reap (Int64.ofNat s.now))
      reaperAt := some (s.now + reaperPeriodNs) } :=
  if_pos (h.reaperAt.trans (congrArg some hnow.symm))

/-- Behind the end of the lease the reaper removes the binding. -/
theorem Waiting.lapse (h : s.Waiting r target last due) (hlater : s.now ≤ due)
    (hexpired : r.leaseNs < target) (hrange : target < 2 ^ 63) :
    ∃ t, Reaches (step r) (Undisturbed r) s t ∧ t.unsubscribed = false ∧ ∀ id, ¬t.Bound r id := by
  obtain ⟨u, last', due', hu, hunow, hwait, -⟩ := h.arrive hlater
  have hstep := hwait.step_reap hunow
  refine ⟨_, hu.trans (reaches_step hstep trivial), hwait.subscribed, fun id hbound ↦ ?_⟩
  obtain ⟨⟨b, hb, hkey⟩, -⟩ := hbound
  have hentry := (hwait.wired.step (by exact trivial) hstep).exists_lease hb hkey
  obtain ⟨expiry, hlease, hexpiry⟩ := hwait.lease
  have hfilter : (u.producer.expected (r.unit, r.address)).filter
      (fun lease ↦ Int64.ofNat u.now ≤ lease.2) = some (b.periodUs, b.expiryNs) := hentry
  rw [hlease, Option.filter_some, if_neg] at hfilter
  · cases hfilter
  · have hnow : (Int64.ofNat u.now).toInt = u.now := Int64.toInt_ofNat_of_lt (by omega)
    rw [decide_eq_true_iff, Int64.le_iff_toInt_le, hnow, hexpiry]
    omega

/-- Before the end of the lease the reaper leaves the binding, and a response within the last second
puts the refresh off. -/
theorem Waiting.round (h : s.Waiting r target last due) (hlater : s.now ≤ due)
    (hvalid : target ≤ r.leaseNs) (hrange : r.leaseNs < 2 ^ 63) (hdue : due ≤ target)
    (hrecent : target < due + interestRefreshNs) :
    ∃ t last', Reaches (step r) (Undisturbed r) s t ∧ t.now = target ∧
      t.Waiting r (target + interestRefreshNs) last' (last' + r.periodNs) ∧ last' ≤ target ∧
      target < last' + r.periodNs ∧ (target < due + r.periodNs → last' = due) := by
  obtain ⟨u, last', due', hu, hunow, hwait, hresponded⟩ := h.arrive hlater
  obtain ⟨hle, hbelow, rfl, habove, honce⟩ := hresponded hdue
  have hreap := hwait.step_reap hunow
  obtain ⟨expiry, hlease, hexpiry⟩ := hwait.lease
  have hnow : (Int64.ofNat u.now).toInt = u.now := Int64.toInt_ofNat_of_lt (by omega)
  have hkept : (u.producer.operate (.reap (Int64.ofNat u.now))).expected (r.unit, r.address) =
      some (r.periodUs, expiry) := by
    show (u.producer.expected (r.unit, r.address)).filter _ = _
    rw [hlease, Option.filter_some, if_pos]
    rw [decide_eq_true_iff, Int64.le_iff_toInt_le, hnow, hexpiry]
    omega
  have hreaped := hwait.wired.step (by exact trivial) hreap
  obtain ⟨was, thread, hwas, hthread, hid⟩ := hwait.wired.same_thread hreaped
    (.reap (Int64.ofNat u.now)) rfl (fun heq ↦ (by cases heq)) hlease hkept
  have hputOff : Subscription.step r { u with
      producer := u.producer.operate (.reap (Int64.ofNat u.now))
      reaperAt := some (u.now + reaperPeriodNs) } (.reactiveTick 0) = some { u with
        producer := u.producer.operate (.reap (Int64.ofNat u.now))
        reaperAt := some (u.now + reaperPeriodNs)
        consumer := some ⟨last', target + interestRefreshNs⟩ } := by
    rw [Subscription.step]
    dsimp only
    rw [hwait.consumer]
    dsimp only
    have hsilent : ¬last' + interestRefreshNs ≤ u.now := by omega
    rw [if_pos ⟨hwait.subscribed, hunow.symm⟩, Subscription.reactiveTick, if_neg hsilent]
  refine ⟨_, last', (hu.trans (reaches_step hreap trivial)).trans (reaches_step hputOff trivial),
    hunow,
    ?_, hbelow, habove, honce⟩
  refine ⟨hreaped.step (by exact trivial) hputOff, hwait.calm, hwait.subscribed, ?_, ?_, rfl, ?_,
    ⟨expiry, hkept, hexpiry⟩⟩
  · show u.now ≤ target + interestRefreshNs
    omega
  · rw [hunow]
    rfl
  · intro d hd
    have hsame := respondDue_of_same hwas hthread hid rfl
    exact hwait.due d (hsame.symm.trans hd)

/-! ### The periods below 4/3 s -/

/-- The response that comes next when the last `j` windows of a second all saw one: in the next
window, and for a period above a second exactly `j` periods behind the first. -/
def OnTrack (r : Request) (j due : ℕ) : Prop :=
  (j + 1) * interestRefreshNs ≤ due ∧
    (r.periodNs ≤ interestRefreshNs → due < (j + 2) * interestRefreshNs) ∧
    (interestRefreshNs < r.periodNs → due = interestRefreshNs + j * r.periodNs)

/-- The lease is less than 16/3 s. -/
theorem Request.leaseNs_lt (hshort : 3 * r.periodNs < 4 * interestRefreshNs) :
    3 * r.leaseNs < 16 * interestRefreshNs ∧
      (interestRefreshNs < r.periodNs → r.leaseNs = 4 * r.periodNs) := by
  have hsecond : interestRefreshNs = 1000000000 := rfl
  have hpositive := Request.periodNs_pos r
  unfold Request.periodNs at *
  rw [Request.leaseNs, leaseUs]
  omega

/-- From the second refresh on the lease lapses, at the sixth at the latest. -/
theorem Waiting.exists_lapse (hshort : 3 * r.periodNs < 4 * interestRefreshNs) (left : ℕ) :
    ∀ {s : Subscription} {j last due : ℕ},
      s.Waiting r ((j + 2) * interestRefreshNs - 1) last due → s.now ≤ due → OnTrack r j due →
      j + left = 4 →
      ∃ t, Reaches (step r) (Undisturbed r) s t ∧ t.unsubscribed = false ∧ ∀ id, ¬t.Bound r id := by
  have hsecond : interestRefreshNs = 1000000000 := rfl
  obtain ⟨hlease, hfactor⟩ := Request.leaseNs_lt hshort
  induction left with
  | zero =>
    intro s j last due h hlater htrack hj
    obtain rfl : j = 4 := hj
    exact h.lapse hlater (by omega) (by omega)
  | succ left ih =>
    intro s j last due h hlater htrack hj
    by_cases hexpired : r.leaseNs < (j + 2) * interestRefreshNs - 1
    · exact h.lapse hlater hexpired (by rw [hsecond]; omega)
    · obtain ⟨hlow, hhigh, hexact⟩ := htrack
      have hdue : due ≤ (j + 2) * interestRefreshNs - 1 := by
        rcases le_or_gt r.periodNs interestRefreshNs with hle | hgt
        · have hbelow := hhigh hle
          omega
        · rw [hexact hgt]
          have hfew : j ≤ 3 := by omega
          interval_cases j <;> omega
      have hrecent : (j + 2) * interestRefreshNs - 1 < due + interestRefreshNs := by
        rw [hsecond] at hlow ⊢
        omega
      obtain ⟨t, last', ht, htnow, hwait, hbelow, habove, honce⟩ :=
        h.round hlater (not_lt.mp hexpired) (by omega) hdue hrecent
      have htarget : (j + 2) * interestRefreshNs - 1 + interestRefreshNs =
          (j + 1 + 2) * interestRefreshNs - 1 := by
        rw [hsecond]
        omega
      rw [htarget] at hwait
      have hnext : OnTrack r (j + 1) (last' + r.periodNs) := by
        refine ⟨?_, fun hle ↦ ?_, fun hgt ↦ ?_⟩
        · rw [hsecond] at habove ⊢
          omega
        · rw [hsecond] at hbelow hle ⊢
          omega
        · rw [honce (by omega), hexact hgt]
          ring
      obtain ⟨u, hu, hsubscribed, hnobody⟩ := ih hwait (by omega) hnext (by omega)
      exact ⟨u, ht.trans hu, hsubscribed, hnobody⟩

/-- The first message of a consumer, with the quadrant of a producer that has seen none. -/
def firstInterest (r : Request) : Arrival :=
  ⟨r.address, 0xFF, interestMessage r.unit r.periodUs false⟩

def applyingFirst (r : Request) : Producer :=
  { Producer.initial r.unit bindingLifetimeMinUs bindingLifetimeFactor with
    handling := .applying (firstInterest r) }

theorem step_update {m : Arrival} {rest : List Arrival} {P : Producer}
    (hflight : s.inFlight = m :: rest)
    (hP : s.producer.step (.update m) = some P) :
    s.step r .update = some { s with producer := P, inFlight := rest } := by
  rw [Subscription.step, hflight]
  dsimp only
  rw [hP, Option.map_some]

/-- Both sides are constructed at time 0, the producer before the consumer, and the interest is
handled. -/
theorem exists_registered (hrange : r.leaseNs < 2 ^ 63) (reaperDelay refreshDelay : ℕ)
    (hdelay : refreshDelay ≤ interestRefreshNs) :
    ∃ P : Producer, Reaches (step r) (Undisturbed r) (initial r)
        ⟨0, P, some (0 + reaperDelay + reaperPeriodNs), none, some ⟨0, 0 + refreshDelay⟩, false,
          []⟩ ∧
      P.handling = .idle ∧
      ∃ expiry : Int64, P.expected (r.unit, r.address) = some (r.periodUs, expiry) ∧
        expiry.toInt = r.leaseNs := by
  obtain ⟨reaperAt, hreaper⟩ : ∃ time, time = 0 + reaperDelay + reaperPeriodNs := ⟨_, rfl⟩
  have hproducer : (initial r).step r (.startProducer reaperDelay) =
      some { initial r with reaperAt := some reaperAt } := by
    rw [hreaper]
    rfl
  have hconsumer : { initial r with reaperAt := some reaperAt }.step r
      (.startConsumer refreshDelay 0xFF) = some { initial r with
        reaperAt := some reaperAt
        consumer := some ⟨0, 0 + refreshDelay⟩
        inFlight := [firstInterest r] } := if_pos hdelay
  have hhandles : (initial r).producer.handles (firstInterest r) = true :=
    handles_interestMessage r.unit r.periodUs false rfl rfl
  have hstep : (initial r).producer.step (.update (firstInterest r)) = some (applyingFirst r) := by
    show some ((initial r).producer.update (firstInterest r)) = _
    rw [Producer.update, if_pos hhandles]
    rfl
  have hupdate : { initial r with
      reaperAt := some reaperAt
      consumer := some (Refresh.mk 0 (0 + refreshDelay))
      inFlight := [firstInterest r] }.step r .update = some { initial r with
        producer := applyingFirst r
        reaperAt := some reaperAt
        consumer := some ⟨0, 0 + refreshDelay⟩ } :=
    step_update rfl hstep
  have happly : { initial r with
      producer := applyingFirst r
      reaperAt := some reaperAt
      consumer := some (Refresh.mk 0 (0 + refreshDelay)) }.step r .apply = some { initial r with
        producer := { (applyingFirst r).operate
          ((applyingFirst r).operation (firstInterest r) (Int64.ofNat 0)) with handling := .idle }
        reaperAt := some reaperAt
        consumer := some ⟨0, 0 + refreshDelay⟩ } := rfl
  have hsame : { initial r with
      reaperAt := some reaperAt
      consumer := some (Refresh.mk 0 (0 + refreshDelay))
      inFlight := [firstInterest r] }.Undisturbed r .update := by
    intro m hm
    obtain rfl := Option.some.inj hm
    exact fun _ ↦ Or.inl rfl
  have hwired := ((wired_initial r).step (by exact trivial) hproducer).step
    (by exact trivial) hconsumer
  have happlying := hwired.step hsame hupdate
  have hrun := (((reaches_step hproducer trivial).trans (reaches_step hconsumer trivial)).trans
    (reaches_step hupdate hsame)).trans
    (reaches_step happly (by show 0 + r.leaseNs < 2 ^ 63; omega))
  rw [← hreaper]
  refine ⟨_, hrun, rfl, leaseEnd r.periodUs (Int64.ofNat 0), ?_, ?_⟩
  · have hexpected := (happlying.expected_operate (m := firstInterest r)
      ⟨rfl, false, rfl, fun hfalse ↦ (by cases hfalse)⟩ (Int64.ofNat 0)).resolve_right
        fun hgone ↦ (by cases hgone.2)
    exact (congrFun hexpected _).trans (Function.update_self _ _ _)
  · have hlease : (r.leaseNs : ℤ) = 1000 * (leaseUs r.periodUs.toNat : ℤ) := by
      rw [Request.leaseNs]
      push_cast
      rfl
    have hzero : (Int64.ofNat 0).toInt = 0 := rfl
    rw [toInt_leaseEnd_of_lt hzero.ge (by rw [hzero]; omega), hzero, hlease, zero_add]

/-- No thread has responded yet. -/
theorem respondDue_of_none (hrespond : s.respondAt = none) : s.respondDue r = none := by
  rw [respondDue, hrespond]
  cases s.producer.cache.threads[r.unit]? <;> rfl

/-- The refresh and the reaper are due a nanosecond before each full second; the first refresh is
put off. -/
theorem exists_waiting (hrange : r.leaseNs < 2 ^ 63) :
    ∃ s, Reaches (step r) (Undisturbed r) (initial r) s ∧
      s.Waiting r (2 * interestRefreshNs - 1) 0 interestRefreshNs ∧ s.now ≤ interestRefreshNs := by
  obtain ⟨first, hfirst⟩ : ∃ time, time + 1 = interestRefreshNs := ⟨interestRefreshNs - 1, rfl⟩
  have hreaper : 0 + first + reaperPeriodNs = 2 * interestRefreshNs - 1 := by
    have hsame : reaperPeriodNs = interestRefreshNs := rfl
    omega
  obtain ⟨P, hrun, hidle, hlease⟩ := exists_registered hrange first first (by omega)
  rw [hreaper, Nat.zero_add] at hrun
  obtain ⟨s, hs⟩ : ∃ s : Subscription, s = ⟨0, P, some (2 * interestRefreshNs - 1), none,
    some ⟨0, first⟩, false, []⟩ := ⟨_, rfl⟩
  have helapse : s.step r (.elapse first) = some { s with now := s.now + first } := by
    refine if_pos ⟨by rw [hs]; exact ⟨rfl, hidle⟩, fun x hx ↦ ?_, fun x hx ↦ ?_, fun _ c hc ↦ ?_⟩
    · rw [hs] at hx ⊢
      obtain rfl := Option.some.inj hx
      show 0 + first ≤ 2 * interestRefreshNs - 1
      omega
    · rw [respondDue_of_none (by rw [hs])] at hx
      cases hx
    · rw [hs] at hc ⊢
      obtain rfl := Option.some.inj hc
      exact (Nat.zero_add first).le
  have hputOff : { s with now := s.now + first }.step r (.reactiveTick 0xFF) = some { s with
      now := s.now + first
      consumer := some ⟨0, first + interestRefreshNs⟩ } := by
    have hsilent : ¬0 + interestRefreshNs ≤ 0 + first := by omega
    rw [hs, Subscription.step]
    dsimp only
    rw [if_pos ⟨rfl, (Nat.zero_add first).symm⟩, Subscription.reactiveTick, if_neg hsilent]
  have hwaiting := (hs ▸ hrun).trans ((reaches_step helapse trivial).trans
    (reaches_step hputOff trivial))
  refine ⟨_, hwaiting, ⟨?_, ?_, ?_, ?_, ?_, ?_, ?_, ?_⟩, ?_⟩
  · exact hwaiting.invariant (P := Wired r) (fun _ _ _ h hguard hstep ↦ h.step hguard hstep)
      (wired_initial r)
  · rw [hs]
    exact ⟨rfl, hidle⟩
  · rw [hs]
  · rw [hs]
    show 0 + first ≤ 2 * interestRefreshNs - 1
    omega
  · rw [hs]
  · rw [hs]
    show some (Refresh.mk 0 (first + interestRefreshNs)) = some ⟨0, 2 * interestRefreshNs - 1⟩
    rw [show first + interestRefreshNs = 2 * interestRefreshNs - 1 by omega]
  · intro d hd
    rw [respondDue_of_none (by rw [hs])] at hd
    cases hd
  · rw [hs]
    exact hlease
  · rw [hs]
    show 0 + first ≤ interestRefreshNs
    omega

/-- For a period below 4/3 s there is a run in which the binding is lost. -/
theorem exists_lost (hshort : 3 * r.periodNs < 4 * interestRefreshNs) :
    ∃ s t id, Reaches (step r) (Undisturbed r) (initial r) s ∧
      Reaches (step r) (Undisturbed r) s t ∧ s.Bound r id ∧ t.unsubscribed = false ∧
      ¬t.Bound r id := by
  have hsecond : interestRefreshNs = 1000000000 := rfl
  obtain ⟨hlease, -⟩ := Request.leaseNs_lt hshort
  obtain ⟨s, hrun, hwait, hnow⟩ := exists_waiting (r := r) (by omega)
  have htrack : OnTrack r 0 interestRefreshNs := by
    refine ⟨by omega, fun _ ↦ by omega, fun _ ↦ ?_⟩
    rw [Nat.zero_mul, Nat.add_zero]
  obtain ⟨t, hlater, hsubscribed, hnobody⟩ := Waiting.exists_lapse hshort 4 (j := 0)
    (by rw [Nat.zero_add]; exact hwait) hnow htrack rfl
  obtain ⟨thread, hthread⟩ := hwait.exists_thread
  obtain ⟨expiry, hentry, -⟩ := hwait.lease
  exact ⟨s, t, thread.id, hrun, hlater,
    ⟨⟨_, hwait.wired.exists_binding hentry, rfl⟩, thread, hthread, rfl⟩, hsubscribed,
    hnobody thread.id⟩

/-- When a lease never lapses. Of every run in which every interest message carries the quadrant of
the last one or finds no binding, and the leases are in the range of the clock, with any phases of
the three loops and any delay of a new thread: the binding of the consumer and the thread that
responds stay from the registration on until it unsubscribes, if and only if its period is at least
4/3 s. -/
theorem lease_never_lapses_iff (r : Request) :
    (∀ s t id, Reaches (step r) (Undisturbed r) (initial r) s →
      Reaches (step r) (Undisturbed r) s t → s.Bound r id → t.unsubscribed = false → t.Bound r id) ↔
      4000000 ≤ 3 * r.periodUs.toNat := by
  have hperiod : r.periodNs = 1000 * r.periodUs.toNat := rfl
  have hsecond : interestRefreshNs = 1000000000 := rfl
  constructor
  · intro hkept
    by_contra hshort
    obtain ⟨s, t, id, hrun, hlater, hbound, hsubscribed, hlost⟩ := exists_lost (r := r) (by omega)
    exact hlost (hkept s t id hrun hlater hbound hsubscribed)
  · intro hlong s t id hrun hlater hbound hsubscribed
    exact binding_stays (by omega) hrun hlater hbound hsubscribed

def halfSecond : Request := ⟨1, Producer.neighbour, 500000, by decide⟩

/-- Its lease of 3.5 s lapses while the responses reach it. -/
theorem lease_lapses :
    ∃ s t id, Reaches (step halfSecond) (Undisturbed halfSecond) (initial halfSecond) s ∧
      Reaches (step halfSecond) (Undisturbed halfSecond) s t ∧ s.Bound halfSecond id ∧
      t.unsubscribed = false ∧ ¬t.Bound halfSecond id :=
  exists_lost (by decide)

end Subscription

end VehicleComm.SmartData
