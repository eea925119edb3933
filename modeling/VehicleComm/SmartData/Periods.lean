import VehicleComm.Core.PeriodicThread
import VehicleComm.SmartData.Producer

/-!
# The periods on the wire

An interest message carries any period of 64 bits, and nothing checks it. `expiry_for` multiplies it
by four, in unsigned arithmetic, and by a thousand, in signed arithmetic, before it adds the time;
the thread that responds to the unit waits for it with the arithmetic of `Periodic_Thread`. Both are
sound for the periods whose lease, or whose deadline, is in the range of the clock
(`lease_sound_iff`, `deadline_exact_iff`), and any period gets to both (`thread_of_interest`).
-/

set_option autoImplicit false
set_option relaxedAutoImplicit false

namespace VehicleComm.SmartData

open Library Channel VehicleComm.Core

namespace BindingCache

/-! ### The lease -/

/-- `Smart_Config::BINDING_LIFETIME_MIN_US`. -/
def bindingLifetimeMinUs : UInt64 := 3500000

/-- `Smart_Config::BINDING_LIFETIME_FACTOR`. -/
def bindingLifetimeFactor : UInt32 := 4

/-- The end of the lease that a `SmartData` gives an interest with a period. -/
def leaseEnd (periodUs : UInt64) (nowNs : Int64) : Int64 :=
  expiryFor bindingLifetimeMinUs bindingLifetimeFactor (atLeastOne periodUs) nowNs

/-- The lease of a period in microseconds, on the natural numbers. -/
def leaseUs (periodUs : ℕ) : ℕ := max (4 * max periodUs 1) 3500000

theorem toNat_atLeastOne (periodUs : UInt64) :
    (atLeastOne periodUs).toNat = max periodUs.toNat 1 := by
  rw [← max_one]
  have hmax : max periodUs 1 = if periodUs ≤ 1 then 1 else periodUs := rfl
  rw [hmax]
  split_ifs with hle
  · rw [UInt64.le_iff_toNat_le, UInt64.toNat_one] at hle
    rw [UInt64.toNat_one]
    omega
  · rw [UInt64.le_iff_toNat_le, UInt64.toNat_one] at hle
    omega

/-- A lease that fits in 64 bits before it is converted, wrapped afterwards. -/
theorem toInt_leaseEnd {periodUs : UInt64} (hfits : 4 * max periodUs.toNat 1 < 2 ^ 64)
    (nowNs : Int64) :
    (leaseEnd periodUs nowNs).toInt =
      (nowNs.toInt + 1000 * (leaseUs periodUs.toNat : ℤ)).bmod (2 ^ 64) := by
  have hproduct : (bindingLifetimeFactor.toUInt64 * atLeastOne periodUs).toNat =
      4 * max periodUs.toNat 1 := by
    have hfactor : bindingLifetimeFactor.toUInt64.toNat = 4 := rfl
    rw [UInt64.toNat_mul, hfactor, toNat_atLeastOne, Nat.mod_eq_of_lt hfits]
  have hlife : (if bindingLifetimeFactor.toUInt64 * atLeastOne periodUs < bindingLifetimeMinUs then
      bindingLifetimeMinUs else bindingLifetimeFactor.toUInt64 * atLeastOne periodUs).toNat =
        leaseUs periodUs.toNat := by
    have hmin : bindingLifetimeMinUs.toNat = 3500000 := rfl
    rw [leaseUs]
    split_ifs with hlt
    · rw [UInt64.lt_iff_toNat_lt, hproduct, hmin] at hlt
      omega
    · rw [UInt64.lt_iff_toNat_lt, hproduct, hmin] at hlt
      omega
  rw [leaseEnd, expiryFor, toInt_advance, hlife]

theorem leaseUs_mono {q p : ℕ} (hle : q ≤ p) : leaseUs q ≤ leaseUs p := by
  rw [leaseUs, leaseUs]
  omega

/-- A lease in the range of the clock is exact. -/
theorem toInt_leaseEnd_of_lt {periodUs : UInt64} {nowNs : Int64} (hnow : 0 ≤ nowNs.toInt)
    (hrange : nowNs.toInt + 1000 * (leaseUs periodUs.toNat : ℤ) < 2 ^ 63) :
    (leaseEnd periodUs nowNs).toInt = nowNs.toInt + 1000 * (leaseUs periodUs.toNat : ℤ) := by
  have hfour : 4 * max periodUs.toNat 1 ≤ leaseUs periodUs.toNat := le_max_left _ _
  rw [toInt_leaseEnd (by omega), bmod_eq_self_iff]
  exact ⟨by omega, hrange⟩

/-- The shortest period whose lease leaves the range gets a lease that has expired. -/
theorem leaseEnd_negative {periodUs : UInt64} {nowNs : Int64} (hnow : nowNs.toInt < 2 ^ 62)
    (hover : 2 ^ 63 ≤ nowNs.toInt + 4000 * (periodUs.toNat : ℤ))
    (hleast : nowNs.toInt + 4000 * (periodUs.toNat : ℤ) < 2 ^ 63 + 4000) :
    (leaseEnd periodUs nowNs).toInt < 0 := by
  have hlow := nowNs.le_toInt
  have hlease : leaseUs periodUs.toNat = 4 * periodUs.toNat := by
    rw [leaseUs]
    omega
  have hwrapped : (nowNs.toInt + 1000 * ((4 * periodUs.toNat : ℕ) : ℤ)).bmod (2 ^ 64) =
      nowNs.toInt + 4000 * (periodUs.toNat : ℤ) - 2 ^ 64 := by
    rw [Int.bmod_def]
    omega
  rw [toInt_leaseEnd (by omega), hlease, hwrapped]
  omega

/-- Assumes: a reading of the clock from 0 to 2 ^ 62. Up to a period every lease is at least the
minimum and none is longer than that of the period, if and only if four times the period from now is
in the range of the clock. -/
theorem lease_sound_iff (nowNs : Int64) (hnow : 0 ≤ nowNs.toInt) (hbound : nowNs.toInt < 2 ^ 62)
    (periodUs : UInt64) :
    (∀ q ≤ periodUs,
        nowNs.toInt + (bindingLifetimeMinUs.toNat : ℤ) * 1000 ≤ (leaseEnd q nowNs).toInt ∧
          leaseEnd q nowNs ≤ leaseEnd periodUs nowNs) ↔
      nowNs.toInt + 4000 * (max periodUs.toNat 1 : ℕ) < 2 ^ 63 := by
  have hmin : bindingLifetimeMinUs.toNat = 3500000 := rfl
  rw [hmin]
  constructor
  · intro hsound
    by_contra hover
    -- the shortest period whose lease leaves the range is among them
    obtain ⟨q, hq⟩ : ∃ q : ℕ, q = ((2 ^ 63 - nowNs.toInt + 3999) / 4000).toNat := ⟨_, rfl⟩
    have hvalue : (UInt64.ofNat q).toNat = q := by
      rw [UInt64.toNat_ofNat', Nat.mod_eq_of_lt (by omega)]
    have hle : UInt64.ofNat q ≤ periodUs := by
      rw [UInt64.le_iff_toNat_le, hvalue]
      omega
    have hlow := (hsound (UInt64.ofNat q) hle).1
    have hnegative := @leaseEnd_negative (UInt64.ofNat q) nowNs hbound
      (by rw [hvalue]; omega) (by rw [hvalue]; omega)
    omega
  · intro hrange q hq
    have hrange' : ∀ r : UInt64, r ≤ periodUs →
        nowNs.toInt + 1000 * (leaseUs r.toNat : ℤ) < 2 ^ 63 := by
      intro r hr
      have hmono := leaseUs_mono (UInt64.le_iff_toNat_le.mp hr)
      have hperiod : leaseUs periodUs.toNat = max (4 * max periodUs.toNat 1) 3500000 := rfl
      omega
    have hself := toInt_leaseEnd_of_lt hnow (hrange' periodUs (UInt64.le_refl _))
    have hother := toInt_leaseEnd_of_lt hnow (hrange' q hq)
    have hminimum : 3500000 ≤ leaseUs q.toNat := le_max_right _ _
    have hmono := leaseUs_mono (UInt64.le_iff_toNat_le.mp hq)
    refine ⟨by omega, ?_⟩
    rw [Int64.le_iff_toInt_le, hself, hother]
    omega

/-- A period of some ninety years: its lease has expired before it begins. -/
theorem lease_expired :
    ¬((0 : Int64).toInt + (bindingLifetimeMinUs.toNat : ℤ) * 1000 ≤
      (leaseEnd 3000000000000000 0).toInt) := by
  decide +kernel

theorem lease_sound_iff_minute :
    (7000000000 : Int64).toInt + (bindingLifetimeMinUs.toNat : ℤ) * 1000 ≤
        (leaseEnd 1000000 7000000000).toInt ∧
      leaseEnd 1000000 7000000000 ≤ leaseEnd 60000000 7000000000 :=
  (lease_sound_iff 7000000000 (by decide) (by decide) 60000000).mpr (by decide) 1000000 (by decide)

/-! ### The deadline -/

/-- Any period gets to a thread: the first interest gives the unit a thread with its period. -/
theorem thread_of_interest (lifetimeMinUs : UInt64) (lifetimeFactor : UInt32) (unit : UInt32)
    (address : Endpoint) {periodUs : UInt64} (hperiod : periodUs ≠ 0) (nowNs : Int64) :
    ∃ thread,
      (after lifetimeMinUs lifetimeFactor
        [.onInterest unit address periodUs nowNs]).threads[unit]? = some thread ∧
      thread.periodUs = periodUs := by
  have hatLeast : atLeastOne periodUs = periodUs := if_neg hperiod
  obtain ⟨D, hD⟩ : ∃ D : BindingCache, D = { initial lifetimeMinUs lifetimeFactor with
    bindings := [⟨unit, address, periodUs,
      expiryFor lifetimeMinUs lifetimeFactor periodUs nowNs⟩] } := ⟨_, rfl⟩
  have hcache : after lifetimeMinUs lifetimeFactor [.onInterest unit address periodUs nowNs] =
      D.resyncThreads := by
    rw [hD]
    show onInterest _ unit address periodUs nowNs = _
    rw [onInterest, hatLeast]
    rfl
  have hnamed : (initial lifetimeMinUs lifetimeFactor).Named :=
    (responding_of_empty rfl rfl : (initial lifetimeMinUs lifetimeFactor).Responding).named
  obtain ⟨thread, hthread, hshortest, -⟩ := @threads_resyncThreads_of_nonempty D
    (by rw [hD]; exact ⟨hnamed.unit, hnamed.created, hnamed.apart⟩)
    (by rw [hD]; simpa using hperiod) unit
    (by rw [hD]; exact ⟨periodUs, _, List.mem_singleton_self _, rfl, rfl⟩)
  refine ⟨thread, by rw [hcache, hthread], ?_⟩
  rw [hshortest, hD]
  simp [shortestLocked, ofUnit, shorter]

/-- A period of 2 ^ 61 µs: a thousand times that is a multiple of 2 ^ 64, and the thread that
responds waits for the time it reads, over and over. -/
theorem responder_spins :
    ∃ thread,
      (after bindingLifetimeMinUs bindingLifetimeFactor
        [.onInterest 1 Producer.neighbour 2305843009213693952 0]).threads[(1 : UInt32)]? =
          some thread ∧
      nextDeadline 5000000000 thread.periodUs 5000000100 = 5000000100 ∧
      ¬((nextDeadline 5000000000 thread.periodUs 5000000100).toInt =
          exactDeadline (5000000000 : Int64).toInt thread.periodUs.toNat
            (5000000100 : Int64).toInt ∧
        (5000000000 : Int64) < nextDeadline 5000000000 thread.periodUs 5000000100) := by
  obtain ⟨thread, hthread, hperiod⟩ :=
    thread_of_interest bindingLifetimeMinUs bindingLifetimeFactor 1
    Producer.neighbour (show (2305843009213693952 : UInt64) ≠ 0 by decide) 0
  refine ⟨thread, hthread, ?_⟩
  rw [hperiod]
  decide +kernel

end BindingCache

end VehicleComm.SmartData
