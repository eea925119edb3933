import VehicleComm.Library.KeyedList
import VehicleComm.SmartData.Messages

/-!
# The cache of interests of a producer

`Binding_Cache`: who is interested in which unit, at which period and until when, and the threads
that send the responses, one for each unit that has an interest, at the shortest period asked for.
Every operation holds the mutex from its first access to its last, so each is one step; the readings
of the clock are inputs (`CacheOperation`). A thread object is named by the number of objects
created before it.

The reference is a map from units and addresses to a period and the end of a lease (`Reference`),
and the cache agrees with it after any sequence of operations (`BindingCache.refines_reference`).
-/

set_option autoImplicit false
set_option relaxedAutoImplicit false

namespace VehicleComm.SmartData

open Library Channel

/-- `Binding_Cache::Binding`. -/
structure Binding where
  unit : UInt32
  address : Endpoint
  periodUs : UInt64
  expiryNs : Int64
deriving DecidableEq

/-- What `find_binding` compares. -/
def Binding.key (b : Binding) : UInt32 × Endpoint := (b.unit, b.address)

/-- A `Periodic_Thread` of the cache, with the unit its job responds to. It runs from its creation
until `_threads` drops it, which stops it. -/
structure PeriodicThread where
  id : ℕ
  unit : UInt32
  periodUs : UInt64

/-- `Binding_Cache`. -/
structure BindingCache where
  lifetimeMinUs : UInt64
  lifetimeFactor : UInt32
  bindings : List Binding
  threads : Std.TreeMap UInt32 PeriodicThread
  created : ℕ

def BindingCache.initial (lifetimeMinUs : UInt64) (lifetimeFactor : UInt32) : BindingCache :=
  ⟨lifetimeMinUs, lifetimeFactor, [], ∅, 0⟩

namespace BindingCache

def ofUnit (C : BindingCache) (unit : UInt32) : List Binding :=
  C.bindings.filter fun b ↦ b.unit = unit

/-- The step of the loop of `shortest_locked`. -/
def shorter (best : UInt64) (b : Binding) : UInt64 :=
  if best = 0 ∨ b.periodUs < best then b.periodUs else best

/-- `shortest_locked`: 0 stands for no binding. -/
def shortestLocked (C : BindingCache) (unit : UInt32) : UInt64 :=
  (C.ofUnit unit).foldl shorter 0

/-- The step of the first loop of `resync_threads`. -/
def syncThread (C : BindingCache) (unit : UInt32) : BindingCache :=
  let shortest := C.shortestLocked unit
  match C.threads[unit]? with
  | none =>
    { C with
      threads := C.threads.insert unit ⟨C.created, unit, shortest⟩
      created := C.created + 1 }
  | some thread =>
    { C with threads := C.threads.insert unit { thread with periodUs := shortest } }

/-- The second loop of `resync_threads`. -/
def dropIdle (C : BindingCache) : BindingCache :=
  { C with threads := C.threads.filter fun unit _ ↦ C.shortestLocked unit ≠ 0 }

/-- `resync_threads`. -/
def resyncThreads (C : BindingCache) : BindingCache :=
  ((C.bindings.map Binding.unit).foldl syncThread C).dropIdle

/-- `expiry_for`. -/
def expiryFor (lifetimeMinUs : UInt64) (lifetimeFactor : UInt32) (periodUs : UInt64)
    (nowNs : Int64) : Int64 :=
  let life := lifetimeFactor.toUInt64 * periodUs
  nowNs + (if life < lifetimeMinUs then lifetimeMinUs else life).toInt64 * 1000

/-- The period that `on_interest` registers. -/
def atLeastOne (periodUs : UInt64) : UInt64 := if periodUs = 0 then 1 else periodUs

/-- `on_interest`. -/
def onInterest (C : BindingCache) (unit : UInt32) (address : Endpoint) (periodUs : UInt64)
    (nowNs : Int64) : BindingCache :=
  let period := atLeastOne periodUs
  let expiry := expiryFor C.lifetimeMinUs C.lifetimeFactor period nowNs
  resyncThreads
    { C with
      bindings := upsert Binding.key (unit, address)
        (fun b ↦ { b with periodUs := period, expiryNs := expiry })
        ⟨unit, address, period, expiry⟩ C.bindings }

/-- `on_disinterest`. -/
def onDisinterest (C : BindingCache) (unit : UInt32) (address : Endpoint) : BindingCache :=
  resyncThreads
    { C with bindings := C.bindings.filter fun b ↦ ¬(b.unit = unit ∧ b.address = address) }

/-- `clear`. -/
def clear (C : BindingCache) : BindingCache := { C with bindings := [], threads := ∅ }

/-- A pass of `reap_loop`, with the time it read before it took the mutex. -/
def reap (C : BindingCache) (nowNs : Int64) : BindingCache :=
  resyncThreads { C with bindings := C.bindings.filter fun b ↦ ¬b.expiryNs < nowNs }

end BindingCache

inductive CacheOperation
  | onInterest (unit : UInt32) (address : Endpoint) (periodUs : UInt64) (nowNs : Int64)
  | onDisinterest (unit : UInt32) (address : Endpoint)
  | clear
  | reap (nowNs : Int64)
deriving DecidableEq

namespace BindingCache

def apply (C : BindingCache) : CacheOperation → BindingCache
  | .onInterest unit address periodUs nowNs => C.onInterest unit address periodUs nowNs
  | .onDisinterest unit address => C.onDisinterest unit address
  | .clear => C.clear
  | .reap nowNs => C.reap nowNs

def after (lifetimeMinUs : UInt64) (lifetimeFactor : UInt32) (operations : List CacheOperation) :
    BindingCache :=
  operations.foldl apply (initial lifetimeMinUs lifetimeFactor)

end BindingCache

/-! ### The reference map -/

/-- The period and the end of the lease of each unit and address. -/
abbrev Reference := UInt32 × Endpoint → Option (UInt64 × Int64)

def Reference.apply (lifetimeMinUs : UInt64) (lifetimeFactor : UInt32) (R : Reference) :
    CacheOperation → Reference
  | .onInterest unit address periodUs nowNs =>
    let period := max periodUs 1
    Function.update R (unit, address)
      (some (period, BindingCache.expiryFor lifetimeMinUs lifetimeFactor period nowNs))
  | .onDisinterest unit address => Function.update R (unit, address) none
  | .clear => fun _ ↦ none
  | .reap nowNs => fun entry ↦ (R entry).filter fun lease ↦ nowNs ≤ lease.2

def Reference.after (lifetimeMinUs : UInt64) (lifetimeFactor : UInt32)
    (operations : List CacheOperation) : Reference :=
  operations.foldl (Reference.apply lifetimeMinUs lifetimeFactor) fun _ ↦ none

namespace BindingCache

/-! ### The shortest period -/

def periods (C : BindingCache) (unit : UInt32) : Set UInt64 :=
  {period | ∃ b ∈ C.bindings, b.unit = unit ∧ b.periodUs = period}

/-- What a value of `shortest_locked` stands for. -/
def shortestOf (best : UInt64) : Option UInt64 := if best = 0 then none else some best

theorem shortestOf_shorter (best : UInt64) {b : Binding} (hpositive : b.periodUs ≠ 0) :
    shortestOf (shorter best b) =
      some ((shortestOf best).elim b.periodUs fun least ↦
        if b.periodUs < least then b.periodUs else least) := by
  by_cases hbest : best = 0
  · rw [shorter, if_pos (Or.inl hbest), shortestOf, if_neg hpositive, shortestOf, if_pos hbest,
      Option.elim_none]
  · rw [shortestOf.eq_1 best, if_neg hbest, Option.elim_some]
    by_cases hlt : b.periodUs < best
    · rw [shorter, if_pos (Or.inr hlt), shortestOf, if_neg hpositive, if_pos hlt]
    · rw [shorter, if_neg (not_or.mpr ⟨hbest, hlt⟩), shortestOf, if_neg hbest, if_neg hlt]

theorem leastOf_foldl_shorter (bindings : List Binding) :
    ∀ {values : Set UInt64} {best : UInt64}, (∀ b ∈ bindings, b.periodUs ≠ 0) →
      LeastOf values (shortestOf best) →
      LeastOf (values ∪ {period | ∃ b ∈ bindings, b.periodUs = period})
        (shortestOf (bindings.foldl shorter best)) := by
  induction bindings with
  | nil =>
    intro values best _ hleast
    simpa using hleast
  | cons b rest ih =>
    intro values best hpositive hleast
    have hnext : LeastOf (insert b.periodUs values) (shortestOf (shorter best b)) := by
      rw [shortestOf_shorter best (hpositive b List.mem_cons_self)]
      exact hleast.insert b.periodUs
    have hvalues : values ∪ {period | ∃ c ∈ b :: rest, c.periodUs = period} =
        insert b.periodUs values ∪ {period | ∃ c ∈ rest, c.periodUs = period} := by
      ext period
      simp [eq_comm, or_assoc, or_left_comm]
    rw [hvalues, List.foldl_cons]
    exact ih (fun c hc ↦ hpositive c (List.mem_cons_of_mem b hc)) hnext

/-- `shortest_locked` is the least period asked for the unit, as long as no period is 0. -/
theorem leastOf_shortestLocked {C : BindingCache} (hpositive : ∀ b ∈ C.bindings, b.periodUs ≠ 0)
    (unit : UInt32) : LeastOf (C.periods unit) (shortestOf (C.shortestLocked unit)) := by
  have hvalues : C.periods unit = ∅ ∪ {period | ∃ b ∈ C.ofUnit unit, b.periodUs = period} := by
    ext period
    simp [periods, ofUnit, and_assoc]
  rw [hvalues]
  refine leastOf_foldl_shorter _ (fun b hb ↦ ?_) LeastOf.empty
  exact hpositive b (List.mem_of_mem_filter hb)

/-! ### The threads -/

/-- Every thread responds to the unit it is filed under, and different units have different
threads. -/
structure Named (C : BindingCache) : Prop where
  unit : ∀ (unit : UInt32) (thread : PeriodicThread), C.threads[unit]? = some thread →
    thread.unit = unit
  created : ∀ (unit : UInt32) (thread : PeriodicThread), C.threads[unit]? = some thread →
    thread.id < C.created
  apart : ∀ (unit other : UInt32) (thread thread' : PeriodicThread),
    C.threads[unit]? = some thread → C.threads[other]? = some thread' →
      thread.id = thread'.id → unit = other

theorem bindings_syncThread (C : BindingCache) (unit : UInt32) :
    (C.syncThread unit).bindings = C.bindings := by
  rw [syncThread]
  cases C.threads[unit]? <;> rfl

theorem settings_syncThread (C : BindingCache) (unit : UInt32) :
    (C.syncThread unit).lifetimeMinUs = C.lifetimeMinUs ∧
      (C.syncThread unit).lifetimeFactor = C.lifetimeFactor := by
  rw [syncThread]
  cases C.threads[unit]? <;> exact ⟨rfl, rfl⟩

theorem shortestLocked_congr {C D : BindingCache} (h : D.bindings = C.bindings) (unit : UInt32) :
    D.shortestLocked unit = C.shortestLocked unit := by
  rw [shortestLocked, shortestLocked, ofUnit, ofUnit, h]

theorem created_le_syncThread (C : BindingCache) (unit : UInt32) :
    C.created ≤ (C.syncThread unit).created := by
  rw [syncThread]
  cases C.threads[unit]? with
  | none => exact Nat.le_succ C.created
  | some thread => exact le_refl C.created

theorem threads_syncThread_self (C : BindingCache) (unit : UInt32) :
    (C.syncThread unit).threads[unit]? =
      some ((C.threads[unit]?).elim ⟨C.created, unit, C.shortestLocked unit⟩
        fun thread ↦ { thread with periodUs := C.shortestLocked unit }) := by
  rw [syncThread]
  cases C.threads[unit]? with
  | none => exact Std.TreeMap.getElem?_insert_self
  | some thread => exact Std.TreeMap.getElem?_insert_self

theorem threads_syncThread_of_ne (C : BindingCache) {unit other : UInt32} (hne : other ≠ unit) :
    (C.syncThread unit).threads[other]? = C.threads[other]? := by
  have hinsert : ∀ thread, (C.threads.insert unit thread)[other]? = C.threads[other]? := by
    intro thread
    rw [Std.TreeMap.getElem?_insert, if_neg (by simpa using Ne.symm hne)]
  rw [syncThread]
  cases C.threads[unit]? with
  | none => exact hinsert _
  | some thread => exact hinsert _

/-- A thread that `syncThread` leaves under a unit was there, or is the one it creates. -/
theorem threads_syncThread (C : BindingCache) {unit other : UInt32} {thread : PeriodicThread}
    (h : (C.syncThread unit).threads[other]? = some thread) :
    (∃ was, C.threads[other]? = some was ∧ thread.id = was.id ∧ thread.unit = was.unit) ∨
      other = unit ∧ thread.id = C.created ∧ thread.unit = unit ∧
        (C.syncThread unit).created = C.created + 1 := by
  by_cases hother : other = unit
  · subst hother
    rw [threads_syncThread_self, Option.some.injEq] at h
    rw [syncThread]
    cases hwas : C.threads[other]? with
    | none =>
      rw [hwas, Option.elim_none] at h
      subst h
      exact Or.inr ⟨rfl, rfl, rfl, rfl⟩
    | some was =>
      rw [hwas, Option.elim_some] at h
      subst h
      exact Or.inl ⟨was, rfl, rfl, rfl⟩
  · rw [C.threads_syncThread_of_ne hother] at h
    exact Or.inl ⟨thread, h, rfl, rfl⟩

theorem Named.syncThread {C : BindingCache} (h : C.Named) (unit : UInt32) :
    (C.syncThread unit).Named := by
  refine ⟨fun other thread hthread ↦ ?_, fun other thread hthread ↦ ?_,
    fun one other thread thread' hone hother hid ↦ ?_⟩
  · rcases C.threads_syncThread hthread with ⟨was, hwas, -, hunit⟩ | ⟨rfl, -, hunit, -⟩
    · exact hunit.trans (h.unit other was hwas)
    · exact hunit
  · rcases C.threads_syncThread hthread with ⟨was, hwas, hid, -⟩ | ⟨rfl, hid, -, hcreated⟩
    · rw [hid]
      exact lt_of_lt_of_le (h.created other was hwas) (C.created_le_syncThread unit)
    · rw [hid, hcreated]
      exact Nat.lt_succ_self C.created
  · rcases C.threads_syncThread hone with ⟨was, hwas, hwasid, -⟩ | ⟨rfl, hnew, -, -⟩
    · rcases C.threads_syncThread hother with ⟨was', hwas', hwasid', -⟩ | ⟨rfl, hnew', -, -⟩
      · exact h.apart one other was was' hwas hwas' (by rw [← hwasid, hid, hwasid'])
      · have hlt := h.created one was hwas
        rw [← hwasid, hid, hnew'] at hlt
        exact absurd hlt (lt_irrefl C.created)
    · rcases C.threads_syncThread hother with ⟨was', hwas', hwasid', -⟩ | ⟨rfl, -, -, -⟩
      · have hlt := h.created other was' hwas'
        rw [← hwasid', ← hid, hnew] at hlt
        exact absurd hlt (lt_irrefl C.created)
      · rfl

/-- What the first loop of `resync_threads` does over some units. -/
structure Synced (C : BindingCache) (units : List UInt32) (D : BindingCache) : Prop where
  bindings : D.bindings = C.bindings
  lifetimeMinUs : D.lifetimeMinUs = C.lifetimeMinUs
  lifetimeFactor : D.lifetimeFactor = C.lifetimeFactor
  named : D.Named
  kept : ∀ unit, unit ∉ units → D.threads[unit]? = C.threads[unit]?
  synced : ∀ unit ∈ units, ∃ thread, D.threads[unit]? = some thread ∧
    thread.periodUs = C.shortestLocked unit ∧
      ∀ was, C.threads[unit]? = some was → thread.id = was.id

theorem synced_foldl (units : List UInt32) :
    ∀ {C : BindingCache}, C.Named → C.Synced units (units.foldl syncThread C) := by
  induction units with
  | nil =>
    intro C hnamed
    exact ⟨rfl, rfl, rfl, hnamed, fun _ _ ↦ rfl, fun unit hunit ↦ absurd hunit List.not_mem_nil⟩
  | cons first rest ih =>
    intro C hnamed
    have hrest := ih (hnamed.syncThread first)
    have hbindings := C.bindings_syncThread first
    obtain ⟨hmin, hfactor⟩ := C.settings_syncThread first
    refine ⟨hrest.bindings.trans hbindings, hrest.lifetimeMinUs.trans hmin,
      hrest.lifetimeFactor.trans hfactor, hrest.named, fun unit hunit ↦ ?_, fun unit hunit ↦ ?_⟩
    · obtain ⟨hne, hnot⟩ := not_or.mp (mt List.mem_cons.mpr hunit)
      rw [List.foldl_cons, hrest.kept unit hnot, C.threads_syncThread_of_ne hne]
    · by_cases hagain : unit ∈ rest
      · -- a later turn for the unit only writes the same period again
        obtain ⟨thread, hthread, hperiod, hsame⟩ := hrest.synced unit hagain
        refine ⟨thread, hthread, ?_, fun was hwas ↦ ?_⟩
        · rw [hperiod, shortestLocked_congr hbindings]
        · by_cases hfirst : unit = first
          · subst hfirst
            exact hsame { was with periodUs := C.shortestLocked unit }
              (by rw [threads_syncThread_self, hwas, Option.elim_some])
          · exact hsame was (by rw [C.threads_syncThread_of_ne hfirst, hwas])
      · obtain rfl : unit = first := (List.mem_cons.mp hunit).resolve_right hagain
        have hself := hrest.kept unit hagain
        rw [threads_syncThread_self] at hself
        refine ⟨_, hself, ?_, fun was hwas ↦ ?_⟩
        · cases C.threads[unit]? <;> rfl
        · rw [hwas, Option.elim_some]

theorem threads_dropIdle (C : BindingCache) (unit : UInt32) :
    C.dropIdle.threads[unit]? =
      (C.threads[unit]?).filter fun _ ↦ C.shortestLocked unit ≠ 0 :=
  Std.TreeMap.getElem?_filter'

theorem threads_of_dropIdle {C : BindingCache} {unit : UInt32} {thread : PeriodicThread}
    (h : C.dropIdle.threads[unit]? = some thread) : C.threads[unit]? = some thread := by
  rw [threads_dropIdle] at h
  exact (Option.filter_eq_some_iff.mp h).1

theorem Named.dropIdle {C : BindingCache} (h : C.Named) : C.dropIdle.Named where
  unit := fun unit thread hthread ↦ h.unit unit thread (threads_of_dropIdle hthread)
  created := fun unit thread hthread ↦ h.created unit thread (threads_of_dropIdle hthread)
  apart := fun unit other thread thread' hthread hthread' ↦
    h.apart unit other thread thread' (threads_of_dropIdle hthread) (threads_of_dropIdle hthread')

/-! ### Synchronising the threads -/

theorem mem_units_iff (C : BindingCache) (unit : UInt32) :
    unit ∈ C.bindings.map Binding.unit ↔ (C.periods unit).Nonempty := by
  rw [List.mem_map]
  constructor
  · rintro ⟨b, hb, hunit⟩
    exact ⟨b.periodUs, b, hb, hunit, rfl⟩
  · rintro ⟨-, b, hb, hunit, -⟩
    exact ⟨b, hb, hunit⟩

theorem shortestLocked_eq_zero_iff {C : BindingCache}
    (hpositive : ∀ b ∈ C.bindings, b.periodUs ≠ 0) (unit : UInt32) :
    C.shortestLocked unit = 0 ↔ C.periods unit = ∅ := by
  rw [← (leastOf_shortestLocked hpositive unit).eq_none_iff, shortestOf]
  split_ifs with hzero
  · exact iff_of_true hzero rfl
  · exact iff_of_false hzero not_false

theorem synced_resyncThreads {C : BindingCache} (hnamed : C.Named) :
    C.Synced (C.bindings.map Binding.unit) ((C.bindings.map Binding.unit).foldl syncThread C) :=
  synced_foldl _ hnamed

theorem bindings_resyncThreads {C : BindingCache} (hnamed : C.Named) :
    C.resyncThreads.bindings = C.bindings :=
  (synced_resyncThreads hnamed).bindings

/-- `resync_threads` leaves a unit without bindings without a thread. -/
theorem threads_resyncThreads_of_empty {C : BindingCache} (hnamed : C.Named)
    (hpositive : ∀ b ∈ C.bindings, b.periodUs ≠ 0) {unit : UInt32} (hempty : C.periods unit = ∅) :
    C.resyncThreads.threads[unit]? = none := by
  have hzero := (shortestLocked_eq_zero_iff hpositive unit).mpr hempty
  rw [resyncThreads, threads_dropIdle,
    shortestLocked_congr (synced_resyncThreads hnamed).bindings, hzero]
  simp

/-- `resync_threads` gives a unit with bindings a thread with the shortest period, the one it had if
it had one. -/
theorem threads_resyncThreads_of_nonempty {C : BindingCache} (hnamed : C.Named)
    (hpositive : ∀ b ∈ C.bindings, b.periodUs ≠ 0) {unit : UInt32}
    (hsome : (C.periods unit).Nonempty) :
    ∃ thread, C.resyncThreads.threads[unit]? = some thread ∧
      thread.periodUs = C.shortestLocked unit ∧
        ∀ was, C.threads[unit]? = some was → thread.id = was.id := by
  have hsynced := synced_resyncThreads hnamed
  obtain ⟨thread, hthread, hperiod, hsame⟩ := hsynced.synced unit ((C.mem_units_iff unit).mpr hsome)
  have hpresent : C.shortestLocked unit ≠ 0 := by
    rw [Ne, shortestLocked_eq_zero_iff hpositive]
    exact hsome.ne_empty
  refine ⟨thread, ?_, hperiod, hsame⟩
  rw [resyncThreads, threads_dropIdle, hthread, Option.filter_eq_some_iff,
    shortestLocked_congr hsynced.bindings]
  exact ⟨rfl, decide_eq_true hpresent⟩

structure Responding (C : BindingCache) : Prop where
  unique : KeyUnique Binding.key C.bindings
  positive : ∀ b ∈ C.bindings, b.periodUs ≠ 0
  named : C.Named
  threads : ∀ unit : UInt32,
    LeastOf (C.periods unit) ((C.threads[unit]?).map PeriodicThread.periodUs)

theorem responding_resyncThreads {C : BindingCache} (hnamed : C.Named)
    (hunique : KeyUnique Binding.key C.bindings) (hpositive : ∀ b ∈ C.bindings, b.periodUs ≠ 0) :
    C.resyncThreads.Responding := by
  have hbindings := bindings_resyncThreads hnamed
  refine ⟨hbindings ▸ hunique, hbindings ▸ hpositive, (synced_resyncThreads hnamed).named.dropIdle,
    fun unit ↦ ?_⟩
  have hleast := leastOf_shortestLocked hpositive unit
  have hperiods : C.resyncThreads.periods unit = C.periods unit := by
    rw [periods, hbindings, periods]
  rw [hperiods]
  rcases (C.periods unit).eq_empty_or_nonempty with hempty | hsome
  · rw [threads_resyncThreads_of_empty hnamed hpositive hempty, hempty]
    exact LeastOf.empty
  · obtain ⟨thread, hthread, hperiod, -⟩ := threads_resyncThreads_of_nonempty hnamed hpositive hsome
    have hpresent : C.shortestLocked unit ≠ 0 := by
      rw [Ne, shortestLocked_eq_zero_iff hpositive]
      exact hsome.ne_empty
    rw [hthread, Option.map_some, hperiod]
    rwa [shortestOf, if_neg hpresent] at hleast

/-! ### The operations -/

/-- What an operation makes of the bindings. -/
def edited (C : BindingCache) : CacheOperation → List Binding
  | .onInterest unit address periodUs nowNs =>
    let period := atLeastOne periodUs
    let expiry := expiryFor C.lifetimeMinUs C.lifetimeFactor period nowNs
    upsert Binding.key (unit, address)
      (fun b ↦ { b with periodUs := period, expiryNs := expiry })
      ⟨unit, address, period, expiry⟩ C.bindings
  | .onDisinterest unit address =>
    C.bindings.filter fun b ↦ ¬(b.unit = unit ∧ b.address = address)
  | .clear => []
  | .reap nowNs => C.bindings.filter fun b ↦ ¬b.expiryNs < nowNs

/-- Every operation but `clear` edits the bindings and synchronises the threads. -/
theorem apply_eq_resyncThreads (C : BindingCache) {operation : CacheOperation}
    (hclear : operation ≠ .clear) :
    C.apply operation = resyncThreads { C with bindings := C.edited operation } := by
  cases operation with
  | onInterest unit address periodUs nowNs => rfl
  | onDisinterest unit address => rfl
  | clear => exact absurd rfl hclear
  | reap nowNs => rfl

theorem atLeastOne_ne_zero (periodUs : UInt64) : atLeastOne periodUs ≠ 0 := by
  rw [atLeastOne]
  split_ifs with hzero
  · decide
  · exact hzero

theorem unique_edited {C : BindingCache} (h : KeyUnique Binding.key C.bindings)
    (operation : CacheOperation) : KeyUnique Binding.key (C.edited operation) := by
  cases operation with
  | onInterest unit address periodUs nowNs => exact h.upsert (fun _ hb ↦ hb) rfl
  | onDisinterest unit address => exact h.filter _
  | clear => exact List.nodup_nil
  | reap nowNs => exact h.filter _

theorem positive_edited {C : BindingCache} (h : ∀ b ∈ C.bindings, b.periodUs ≠ 0)
    (operation : CacheOperation) : ∀ b ∈ C.edited operation, b.periodUs ≠ 0 := by
  intro b hb
  cases operation with
  | onInterest unit address periodUs nowNs =>
    rcases mem_upsert hb with hold | rfl | ⟨was, rfl⟩
    · exact h b hold
    · exact atLeastOne_ne_zero periodUs
    · exact atLeastOne_ne_zero periodUs
  | onDisinterest unit address => exact h b (List.mem_of_mem_filter hb)
  | clear => exact absurd hb List.not_mem_nil
  | reap nowNs => exact h b (List.mem_of_mem_filter hb)

theorem bindings_apply {C : BindingCache} (hnamed : C.Named) (operation : CacheOperation) :
    (C.apply operation).bindings = C.edited operation := by
  by_cases hclear : operation = .clear
  · subst hclear
    rfl
  · rw [C.apply_eq_resyncThreads hclear]
    exact bindings_resyncThreads (C := { C with bindings := C.edited operation })
      ⟨hnamed.unit, hnamed.created, hnamed.apart⟩

/-- A cache without bindings and without threads. -/
theorem responding_of_empty {C : BindingCache} (hbindings : C.bindings = [])
    (hthreads : C.threads = ∅) : C.Responding := by
  have hnone : ∀ unit : UInt32, C.threads[unit]? = none := by
    intro unit
    rw [hthreads]
    exact Std.TreeMap.getElem?_emptyc
  have hempty : ∀ unit, C.periods unit = ∅ := by
    intro unit
    simp [periods, hbindings]
  refine ⟨?_, ?_, ⟨?_, ?_, ?_⟩, fun unit ↦ ?_⟩
  · rw [hbindings]
    exact List.nodup_nil
  · rw [hbindings]
    exact fun b hb ↦ absurd hb List.not_mem_nil
  · exact fun unit thread hthread ↦ absurd hthread (by simp [hnone])
  · exact fun unit thread hthread ↦ absurd hthread (by simp [hnone])
  · exact fun unit other thread thread' hthread ↦ absurd hthread (by simp [hnone])
  · rw [hempty, hnone]
    exact LeastOf.empty

theorem Responding.apply {C : BindingCache} (h : C.Responding) (operation : CacheOperation) :
    (C.apply operation).Responding := by
  by_cases hclear : operation = .clear
  · subst hclear
    exact responding_of_empty rfl rfl
  · rw [C.apply_eq_resyncThreads hclear]
    exact responding_resyncThreads (C := { C with bindings := C.edited operation })
      ⟨h.named.unit, h.named.created, h.named.apart⟩ (unique_edited h.unique operation)
      (positive_edited h.positive operation)

/-- An operation other than `clear` keeps the thread of a unit that has bindings before and
after. -/
theorem Responding.same_thread {C : BindingCache} (h : C.Responding) {operation : CacheOperation}
    (hclear : operation ≠ .clear) {unit : UInt32} (hbefore : (C.periods unit).Nonempty)
    (hafter : ((C.apply operation).periods unit).Nonempty) :
    ∃ was thread, C.threads[unit]? = some was ∧
      (C.apply operation).threads[unit]? = some thread ∧ thread.id = was.id := by
  have hedited : ((C.apply operation).periods unit) =
      { C with bindings := C.edited operation }.periods unit := by
    rw [periods, bindings_apply h.named, periods]
  obtain ⟨was, hwas⟩ : ∃ was, C.threads[unit]? = some was := by
    rw [← Option.ne_none_iff_exists', Ne, ← Option.map_eq_none_iff,
      (h.threads unit).eq_none_iff]
    exact hbefore.ne_empty
  rw [hedited] at hafter
  obtain ⟨thread, hthread, -, hsame⟩ :=
    threads_resyncThreads_of_nonempty (C := { C with bindings := C.edited operation })
      ⟨h.named.unit, h.named.created, h.named.apart⟩ (positive_edited h.positive operation) hafter
  rw [C.apply_eq_resyncThreads hclear]
  exact ⟨was, thread, hwas, hthread, hsame was hwas⟩

/-! ### Refinement of the reference map -/

def Agrees (C : BindingCache) (R : Reference) : Prop :=
  ∀ entry, (lookup Binding.key entry C.bindings).map (fun b ↦ (b.periodUs, b.expiryNs)) = R entry

theorem Agrees.mem_iff {C : BindingCache} {R : Reference} (h : C.Agrees R)
    (hunique : KeyUnique Binding.key C.bindings) (unit : UInt32) (address : Endpoint)
    (periodUs : UInt64) (expiryNs : Int64) :
    ⟨unit, address, periodUs, expiryNs⟩ ∈ C.bindings ↔
      R (unit, address) = some (periodUs, expiryNs) := by
  rw [hunique.mem_iff, ← h (unit, address), Option.map_eq_some_iff]
  constructor
  · intro hfound
    exact ⟨_, hfound, rfl⟩
  · rintro ⟨⟨unit', address', periodUs', expiryNs'⟩, hfound, hlease⟩
    have hkey : Binding.key ⟨unit', address', periodUs', expiryNs'⟩ = (unit, address) :=
      key_of_lookup hfound
    obtain ⟨rfl, rfl⟩ := Prod.mk.inj hkey
    obtain ⟨rfl, rfl⟩ := Prod.mk.inj hlease
    exact hfound

theorem max_one (periodUs : UInt64) : max periodUs 1 = atLeastOne periodUs := by
  have hmax : max periodUs 1 = if periodUs ≤ 1 then 1 else periodUs := rfl
  rw [hmax, atLeastOne]
  by_cases hzero : periodUs = 0
  · rw [hzero]
    rfl
  · rw [if_neg hzero]
    refine ite_eq_right_iff.mpr fun hle ↦ ?_
    rw [UInt64.le_iff_toNat_le, UInt64.toNat_one] at hle
    have hpos : periodUs.toNat ≠ 0 := fun h ↦ hzero (UInt64.toNat_inj.mp h)
    exact UInt64.toNat_inj.mp (by rw [UInt64.toNat_one]; omega)

theorem Agrees.apply {C : BindingCache} {R : Reference} (hC : C.Responding) (h : C.Agrees R)
    (operation : CacheOperation) :
    (C.apply operation).Agrees (R.apply C.lifetimeMinUs C.lifetimeFactor operation) := by
  intro entry
  rw [bindings_apply hC.named]
  cases operation with
  | onInterest unit address periodUs nowNs =>
    rw [Reference.apply, max_one]
    by_cases hentry : entry = (unit, address)
    · subst hentry
      rw [Function.update_self, edited, lookup_upsert_self, Option.map_some]
      · cases lookup Binding.key (unit, address) C.bindings <;> rfl
      · exact fun _ hb ↦ hb
      · rfl
    · rw [Function.update_of_ne hentry, edited, lookup_upsert_of_ne hentry, h entry]
      · exact fun _ hb ↦ hb
      · rfl
  | onDisinterest unit address =>
    have hkey : ∀ b : Binding, (b.unit = unit ∧ b.address = address) ↔ b.key = (unit, address) := by
      intro b
      rw [Binding.key, Prod.mk.injEq]
    rw [Reference.apply, edited, hC.unique.lookup_filter]
    by_cases hentry : entry = (unit, address)
    · rw [hentry, Function.update_self, Option.map_eq_none_iff, Option.filter_eq_none_iff]
      intro b hb
      simp [hkey, key_of_lookup hb]
    · rw [Function.update_of_ne hentry, ← h entry]
      cases hfound : lookup Binding.key entry C.bindings with
      | none => rfl
      | some b =>
        have hother : ¬(b.unit = unit ∧ b.address = address) := by
          rw [hkey, key_of_lookup hfound]
          exact hentry
        rw [Option.filter_some, if_pos (decide_eq_true hother)]
  | clear => rfl
  | reap nowNs =>
    have hlease : ∀ b : Binding, ¬b.expiryNs < nowNs ↔ nowNs ≤ b.expiryNs := by
      intro b
      rw [Int64.lt_iff_toInt_lt, Int64.le_iff_toInt_le, not_lt]
    show _ = (R entry).filter fun lease ↦ nowNs ≤ lease.2
    rw [edited, hC.unique.lookup_filter, ← h entry]
    cases lookup Binding.key entry C.bindings with
    | none => rfl
    | some b =>
      rw [Option.map_some, Option.filter_some, Option.filter_some]
      by_cases hkept : nowNs ≤ b.expiryNs
      · rw [if_pos (decide_eq_true ((hlease b).mpr hkept)), if_pos (decide_eq_true hkept),
          Option.map_some]
      · rw [if_neg (by simpa [hlease] using hkept), if_neg (by simpa using hkept), Option.map_none]

/-- The settings of the cache stay as the constructor set them. -/
theorem settings_apply {C : BindingCache} (hnamed : C.Named) (operation : CacheOperation) :
    (C.apply operation).lifetimeMinUs = C.lifetimeMinUs ∧
      (C.apply operation).lifetimeFactor = C.lifetimeFactor := by
  by_cases hclear : operation = .clear
  · subst hclear
    exact ⟨rfl, rfl⟩
  · have hsynced := synced_resyncThreads (C := { C with bindings := C.edited operation })
      ⟨hnamed.unit, hnamed.created, hnamed.apart⟩
    rw [C.apply_eq_resyncThreads hclear]
    exact ⟨hsynced.lifetimeMinUs, hsynced.lifetimeFactor⟩

/-- The invariant of the sequences of operations. -/
theorem responding_after (lifetimeMinUs : UInt64) (lifetimeFactor : UInt32)
    (operations : List CacheOperation) :
    (after lifetimeMinUs lifetimeFactor operations).Responding ∧
      (after lifetimeMinUs lifetimeFactor operations).Agrees
        (Reference.after lifetimeMinUs lifetimeFactor operations) ∧
      (after lifetimeMinUs lifetimeFactor operations).lifetimeMinUs = lifetimeMinUs ∧
      (after lifetimeMinUs lifetimeFactor operations).lifetimeFactor = lifetimeFactor := by
  induction operations using List.reverseRecOn with
  | nil => exact ⟨responding_of_empty rfl rfl, fun _ ↦ rfl, rfl, rfl⟩
  | append_singleton operations operation ih =>
    obtain ⟨hresponding, hagrees, hmin, hfactor⟩ := ih
    have hcache : after lifetimeMinUs lifetimeFactor (operations ++ [operation]) =
        (after lifetimeMinUs lifetimeFactor operations).apply operation := by
      rw [after, List.foldl_concat, after]
    have hreference : Reference.after lifetimeMinUs lifetimeFactor (operations ++ [operation]) =
        (Reference.after lifetimeMinUs lifetimeFactor operations).apply lifetimeMinUs lifetimeFactor
          operation := by
      rw [Reference.after, List.foldl_concat, Reference.after]
    obtain ⟨hmin', hfactor'⟩ := settings_apply hresponding.named operation
    have hagrees' := hagrees.apply hresponding operation
    rw [hmin, hfactor] at hagrees'
    rw [hcache, hreference]
    exact ⟨hresponding.apply operation, hagrees', hmin'.trans hmin, hfactor'.trans hfactor⟩

/-- After any sequence of operations the bindings are the entries of the reference map, each once;
the units with bindings are those with a thread, which is a thread of its own, responds to that unit
and has the shortest period asked for; and an operation other than `clear` keeps the thread of a
unit that has bindings before and after. -/
theorem refines_reference (lifetimeMinUs : UInt64) (lifetimeFactor : UInt32)
    (operations : List CacheOperation) :
    let C := after lifetimeMinUs lifetimeFactor operations
    (C.bindings.map fun b ↦ (b.unit, b.address)).Nodup ∧
      (∀ unit address periodUs expiryNs, ⟨unit, address, periodUs, expiryNs⟩ ∈ C.bindings ↔
        Reference.after lifetimeMinUs lifetimeFactor operations (unit, address) =
          some (periodUs, expiryNs)) ∧
      (∀ unit : UInt32, (C.threads[unit]?).isSome ↔ ∃ b ∈ C.bindings, b.unit = unit) ∧
      (∀ (unit : UInt32) (thread : PeriodicThread), C.threads[unit]? = some thread →
        thread.unit = unit ∧
          IsLeast {period | ∃ b ∈ C.bindings, b.unit = unit ∧ b.periodUs = period}
            thread.periodUs) ∧
      (∀ (unit other : UInt32) (thread thread' : PeriodicThread), C.threads[unit]? = some thread →
        C.threads[other]? = some thread' → thread.id = thread'.id → unit = other) ∧
      ∀ operation, operation ≠ .clear → ∀ unit, (∃ b ∈ C.bindings, b.unit = unit) →
        (∃ b ∈ (C.apply operation).bindings, b.unit = unit) →
          ∃ was thread, C.threads[unit]? = some was ∧
            (C.apply operation).threads[unit]? = some thread ∧ thread.id = was.id := by
  intro C
  obtain ⟨hC, hagrees, -, -⟩ := responding_after lifetimeMinUs lifetimeFactor operations
  have hunits : ∀ (D : BindingCache) (unit : UInt32),
      (D.periods unit).Nonempty ↔ ∃ b ∈ D.bindings, b.unit = unit := by
    intro D unit
    rw [← mem_units_iff, List.mem_map]
  refine ⟨hC.unique, hagrees.mem_iff hC.unique, fun unit ↦ ?_,
    fun unit thread hthread ↦ ⟨hC.named.unit unit thread hthread, ?_⟩, hC.named.apart,
    fun operation hclear unit hbefore hafter ↦ ?_⟩
  · rw [← hunits, Set.nonempty_iff_ne_empty, Ne, ← (hC.threads unit).eq_none_iff,
      Option.map_eq_none_iff, Option.isSome_iff_ne_none]
  · have hleast := hC.threads unit
    rw [hthread] at hleast
    exact hleast.isLeast
  · exact hC.same_thread hclear ((hunits C unit).mpr hbefore)
      ((hunits (C.apply operation) unit).mpr hafter)

end BindingCache

end VehicleComm.SmartData
