import VehicleComm.Library.GuardedRun
import VehicleComm.Library.KeyedList
import VehicleComm.SmartData.Messages

/-!
# The interest tracker of a road side unit

`Interest_Tracker`: the interests heard on the network, the last time each vehicle was seen, and the
broker, which repeats the interests of the vehicles that are still there and tells the producers to
stop when a unit has lost its last one. `update`, `on_presence` and the body of `broker_tick` hold
the mutex; the broker reads the clock before it takes the mutex and sends after it has released it
(`Repeater`), so the other two may run in between. Readings of the clock are integers: the source
subtracts them as signed 64-bit values, whose overflow has no meaning.

The record of what was heard, seen, decided and sent is written by the steps and read by none.
-/

set_option autoImplicit false
set_option relaxedAutoImplicit false

namespace VehicleComm.SmartData

open Library Network Channel

/-- `PRESENCE_LEASE_NS`. -/
def presenceLeaseNs : ℤ := 4000000000

/-- `Interest_Tracker::Entry`. -/
structure Entry where
  unit : UInt32
  address : Endpoint
  periodUs : UInt64
deriving DecidableEq

/-- What `update` compares. -/
def Entry.key (e : Entry) : UInt32 × Endpoint := (e.unit, e.address)

/-- The message that `send_msg` sends. -/
structure Announcement where
  unit : UInt32
  periodUs : UInt64
  disinterest : Bool
deriving DecidableEq

structure Heard where
  unit : UInt32
  address : Endpoint
  periodUs : UInt64
  disinterest : Bool
deriving DecidableEq

/-- What `broker_tick` decided while it held the mutex: the interests that are left after the purge
and the messages it will send. -/
structure Tick where
  interests : List Entry
  messages : List Announcement

/-- Where the thread of the broker is: asleep, waiting for the mutex with the time it has read, and
sending. -/
inductive Repeater
  | asleep
  | started (nowNs : ℤ)
  | sending (rest : List Announcement)

/-- `Interest_Tracker`, and the record. -/
structure Tracker where
  interests : List Entry
  presence : Std.TreeMap UInt64 ℤ
  activeUnits : Std.TreeSet UInt32
  repeater : Repeater
  clock : ℤ
  heard : List Heard
  seen : List (Address × ℤ)
  ticks : List Tick
  sent : List Announcement

/-- The tracker after its constructor, at some reading of the clock. -/
def Tracker.initial (clock : ℤ) : Tracker :=
  ⟨[], ∅, ∅, .asleep, clock, [], [], [], []⟩

namespace Tracker

/-- The write to `_presence`. -/
def present (T : Tracker) (mac : Address) (nowNs : ℤ) : Tracker :=
  { T with
    presence := T.presence.insert (macKey mac) nowNs
    seen := T.seen ++ [(mac, nowNs)] }

/-- `on_presence`. -/
def onPresence (T : Tracker) (source : Endpoint) (nowNs : ℤ) : Tracker :=
  T.present source.paddr nowNs

/-- The erasure of the entries of one address for a unit. -/
def forget (T : Tracker) (unit : UInt32) (address : Endpoint) : Tracker :=
  { T with interests := T.interests.filter fun e ↦ ¬(e.unit = unit ∧ e.address = address) }

/-- The loop that updates the entry of an address for a unit, and `push_back` if there is none. -/
def register (T : Tracker) (unit : UInt32) (address : Endpoint) (periodUs : UInt64) : Tracker :=
  { T with
    interests := upsert Entry.key (unit, address) (fun e ↦ { e with periodUs := periodUs })
      ⟨unit, address, periodUs⟩ T.interests }

def hear (T : Tracker) (m : Arrival) : Tracker :=
  { T with
    heard := T.heard ++
      [⟨headerUnit m.data, m.address, interestPeriod m.data, isDisinterest m.data⟩] }

/-- `update`. -/
def update (T : Tracker) (m : Arrival) (nowNs : ℤ) : Tracker :=
  if isInterest m.data then
    if isDisinterest m.data then (T.hear m).forget (headerUnit m.data) m.address
    else
      ((T.hear m).present m.address.paddr nowNs).register (headerUnit m.data) m.address
        (interestPeriod m.data)
  else T

/-! ### The broker -/

/-- `dead`: the vehicles whose lease of presence has expired. -/
def dead (T : Tracker) (nowNs : ℤ) : List UInt64 :=
  (T.presence.toList.filter fun entry ↦ presenceLeaseNs < nowNs - entry.2).map Prod.fst

/-- The step of the loop over `dead`. -/
def bury (T : Tracker) (mac : UInt64) : Tracker :=
  { T with
    presence := T.presence.erase mac
    interests := T.interests.filter fun e ↦ macKey e.address.paddr ≠ mac }

def purge (T : Tracker) (nowNs : ℤ) : Tracker := (T.dead nowNs).foldl bury T

end Tracker

/-- The step of the loop that fills `active`. -/
def activate (active : Std.TreeMap UInt32 UInt64) (e : Entry) : Std.TreeMap UInt32 UInt64 :=
  match active[e.unit]? with
  | none => active.insert e.unit e.periodUs
  | some period => if e.periodUs < period then active.insert e.unit e.periodUs else active

/-- `active`: the shortest period of each unit. -/
def activeOf (interests : List Entry) : Std.TreeMap UInt32 UInt64 := interests.foldl activate ∅

/-- `to_stop`, as messages. -/
def stopping (activeUnits : Std.TreeSet UInt32) (active : Std.TreeMap UInt32 UInt64) :
    List Announcement :=
  (activeUnits.toList.filter fun unit ↦ !active.contains unit).map fun unit ↦ ⟨unit, 0, true⟩

/-- `to_repeat`, as messages. -/
def repeating (active : Std.TreeMap UInt32 UInt64) : List Announcement :=
  active.toList.map fun entry ↦ ⟨entry.1, entry.2, false⟩

namespace Tracker

/-- The body of `broker_tick` under the mutex. -/
def lockedTick (T : Tracker) (nowNs : ℤ) : Tracker :=
  let purged := T.purge nowNs
  let active := activeOf purged.interests
  let messages := stopping purged.activeUnits active ++ repeating active
  { purged with
    activeUnits := Std.TreeSet.ofList active.keys
    repeater := .sending messages
    ticks := purged.ticks ++ [⟨purged.interests, messages⟩] }

end Tracker

inductive TrackerAction
  | update (m : Arrival) (nowNs : ℤ)
  | onPresence (source : Endpoint) (nowNs : ℤ)
  | startTick (nowNs : ℤ)
  | lockedTick
  | send
deriving DecidableEq

/-- The reading of the clock in a step, if it makes one. -/
def TrackerAction.reading : TrackerAction → Option ℤ
  | .update m nowNs => if isInterest m.data ∧ ¬isDisinterest m.data then some nowNs else none
  | .onPresence _ nowNs => some nowNs
  | .startTick nowNs => some nowNs
  | .lockedTick => none
  | .send => none

namespace Tracker

/-- The step function of the tracker, without the record of the clock. -/
def act (T : Tracker) : TrackerAction → Option Tracker
  | .update m nowNs => some (T.update m nowNs)
  | .onPresence source nowNs => some (T.onPresence source nowNs)
  | .startTick nowNs =>
    match T.repeater with
    | .asleep => some { T with repeater := .started nowNs }
    | _ => none
  | .lockedTick =>
    match T.repeater with
    | .started nowNs => some (T.lockedTick nowNs)
    | _ => none
  | .send =>
    match T.repeater with
    | .sending [] => some { T with repeater := .asleep }
    | .sending (message :: rest) =>
      some { T with repeater := .sending rest, sent := T.sent ++ [message] }
    | _ => none

def step (T : Tracker) (action : TrackerAction) : Option Tracker :=
  (T.act action).map fun T' ↦ { T' with clock := action.reading.getD T.clock }

def ClockNondecreasing (T : Tracker) (action : TrackerAction) : Prop :=
  T.clock ≤ action.reading.getD T.clock

instance (T : Tracker) (action : TrackerAction) : Decidable (T.ClockNondecreasing action) :=
  inferInstanceAs (Decidable (_ ≤ _))

end Tracker

namespace Tracker

/-! ### The purge -/

theorem mem_dead (T : Tracker) (nowNs : ℤ) (mac : UInt64) :
    mac ∈ T.dead nowNs ↔ ∃ lastSeen : ℤ, T.presence[mac]? = some lastSeen ∧
      presenceLeaseNs < nowNs - lastSeen := by
  simp [dead, Std.TreeMap.mem_toList_iff_getElem?_eq_some]

theorem foldl_bury (macs : List UInt64) :
    ∀ T : Tracker, macs.foldl bury T =
      { T with
        presence := macs.foldl Std.TreeMap.erase T.presence
        interests := T.interests.filter fun e ↦ macKey e.address.paddr ∉ macs } := by
  induction macs with
  | nil =>
    intro T
    simp
  | cons mac rest ih =>
    intro T
    rw [List.foldl_cons, ih, bury]
    simp [List.filter_filter, Bool.and_comm]

theorem presence_foldl_erase (macs : List UInt64) :
    ∀ (presence : Std.TreeMap UInt64 ℤ) (mac : UInt64),
      (macs.foldl Std.TreeMap.erase presence)[mac]? =
        if mac ∈ macs then none else presence[mac]? := by
  induction macs with
  | nil =>
    intro presence mac
    simp
  | cons first rest ih =>
    intro presence mac
    rw [List.foldl_cons, ih, Std.TreeMap.getElem?_erase]
    by_cases hfirst : mac = first
    · simp [hfirst]
    · have hother : ¬compare first mac = .eq := by
        simpa using Ne.symm hfirst
      simp [hfirst, hother]

theorem interests_purge (T : Tracker) (nowNs : ℤ) (e : Entry) :
    e ∈ (T.purge nowNs).interests ↔
      e ∈ T.interests ∧ macKey e.address.paddr ∉ T.dead nowNs := by
  rw [purge, foldl_bury, List.mem_filter, decide_eq_true_iff]

theorem presence_purge (T : Tracker) (nowNs : ℤ) (mac : UInt64) :
    (T.purge nowNs).presence[mac]? = if mac ∈ T.dead nowNs then none else T.presence[mac]? := by
  rw [purge, foldl_bury, presence_foldl_erase]

/-- The purge changes two tables only. -/
theorem purge_eq (T : Tracker) (nowNs : ℤ) :
    T.purge nowNs =
      { T with
        presence := (T.purge nowNs).presence
        interests := (T.purge nowNs).interests } := by
  rw [purge, foldl_bury]

theorem activeUnits_purge (T : Tracker) (nowNs : ℤ) :
    (T.purge nowNs).activeUnits = T.activeUnits := by
  rw [purge_eq]

theorem seen_purge (T : Tracker) (nowNs : ℤ) : (T.purge nowNs).seen = T.seen := by
  rw [purge_eq]

theorem ticks_purge (T : Tracker) (nowNs : ℤ) : (T.purge nowNs).ticks = T.ticks := by
  rw [purge_eq]

theorem sent_purge (T : Tracker) (nowNs : ℤ) : (T.purge nowNs).sent = T.sent := by
  rw [purge_eq]

/-! ### The invariant -/

/-- The interest messages that were heard from an address about a unit. -/
def heardFrom (T : Tracker) (unit : UInt32) (address : Endpoint) : List Heard :=
  T.heard.filter fun h ↦ h.unit = unit ∧ h.address = address

structure Tracked (T : Tracker) : Prop where
  unique : KeyUnique Entry.key T.interests
  latest : ∀ e ∈ T.interests,
    (T.heardFrom e.unit e.address).getLast? = some ⟨e.unit, e.address, e.periodUs, false⟩
  present : ∀ e ∈ T.interests, ∃ lastSeen : ℤ, T.presence[macKey e.address.paddr]? = some lastSeen
  observed : ∀ (mac : Address) (lastSeen : ℤ), T.presence[macKey mac]? = some lastSeen →
    (mac, lastSeen) ∈ T.seen
  newest : ∀ (mac : Address) (time lastSeen : ℤ), (mac, time) ∈ T.seen →
    T.presence[macKey mac]? = some lastSeen → time ≤ lastSeen
  past : ∀ (mac : Address) (time : ℤ), (mac, time) ∈ T.seen → time ≤ T.clock

theorem tracked_initial (clock : ℤ) : (initial clock).Tracked where
  unique := List.nodup_nil
  latest := fun e he ↦ absurd he List.not_mem_nil
  present := fun e he ↦ absurd he List.not_mem_nil
  observed := fun mac lastSeen hseen ↦ absurd hseen (by simp [initial])
  newest := fun mac time lastSeen htime ↦ absurd htime List.not_mem_nil
  past := fun mac time htime ↦ absurd htime List.not_mem_nil

/-- The thread of the broker and its record do not matter for the tables. -/
theorem Tracked.of_tables {T T' : Tracker} (h : T.Tracked) (hinterests : T'.interests = T.interests)
    (hheard : T'.heard = T.heard) (hpresence : T'.presence = T.presence) (hseen : T'.seen = T.seen)
    (hclock : T.clock ≤ T'.clock) : T'.Tracked where
  unique := hinterests ▸ h.unique
  latest := by
    rw [hinterests]
    intro e he
    rw [heardFrom, hheard]
    exact h.latest e he
  present := by
    rw [hinterests, hpresence]
    exact h.present
  observed := by
    rw [hpresence, hseen]
    exact h.observed
  newest := by
    rw [hpresence, hseen]
    exact h.newest
  past := fun mac time htime ↦ (h.past mac time (hseen ▸ htime)).trans hclock

theorem presence_present_self (T : Tracker) (mac : Address) (nowNs : ℤ) :
    (T.present mac nowNs).presence[macKey mac]? = some nowNs :=
  Std.TreeMap.getElem?_insert_self

theorem presence_present_of_ne (T : Tracker) {mac other : Address} (nowNs : ℤ)
    (hne : other ≠ mac) :
    (T.present mac nowNs).presence[macKey other]? = T.presence[macKey other]? := by
  have hkeys : ¬compare (macKey mac) (macKey other) = .eq := by
    simpa using fun heq ↦ hne (macKey_injective heq).symm
  rw [present, Std.TreeMap.getElem?_insert, if_neg hkeys]

/-- A vehicle is seen, at a time that no earlier reading of the clock exceeds. -/
theorem Tracked.present_step {T : Tracker} (h : T.Tracked) (mac : Address) {nowNs : ℤ}
    (hnow : T.clock ≤ nowNs) : { T.present mac nowNs with clock := nowNs }.Tracked where
  unique := h.unique
  latest := h.latest
  present := by
    intro e he
    by_cases hmac : e.address.paddr = mac
    · exact ⟨nowNs, by rw [hmac]; exact T.presence_present_self mac nowNs⟩
    · obtain ⟨lastSeen, hlast⟩ := h.present e he
      exact ⟨lastSeen, (T.presence_present_of_ne nowNs hmac).trans hlast⟩
  observed := by
    intro other lastSeen hlast
    by_cases hmac : other = mac
    · subst hmac
      obtain rfl : nowNs = lastSeen :=
        Option.some.inj ((T.presence_present_self other nowNs).symm.trans hlast)
      exact List.mem_append_right _ (List.mem_singleton_self _)
    · exact List.mem_append_left _
        (h.observed other lastSeen ((T.presence_present_of_ne nowNs hmac).symm.trans hlast))
  newest := by
    intro other time lastSeen htime hlast
    by_cases hmac : other = mac
    · subst hmac
      obtain rfl : nowNs = lastSeen :=
        Option.some.inj ((T.presence_present_self other nowNs).symm.trans hlast)
      rcases List.mem_append.mp htime with hold | hnew
      · exact (h.past other time hold).trans hnow
      · exact (Prod.mk.inj (List.mem_singleton.mp hnew)).2.le
    · rcases List.mem_append.mp htime with hold | hnew
      · exact h.newest other time lastSeen hold
          ((T.presence_present_of_ne nowNs hmac).symm.trans hlast)
      · exact absurd (Prod.mk.inj (List.mem_singleton.mp hnew)).1 hmac
  past := by
    intro other time htime
    rcases List.mem_append.mp htime with hold | hnew
    · exact (h.past other time hold).trans hnow
    · exact (Prod.mk.inj (List.mem_singleton.mp hnew)).2.le

/-! ### Interest messages -/

theorem heardFrom_hear_self (T : Tracker) (m : Arrival) :
    (T.hear m).heardFrom (headerUnit m.data) m.address =
      T.heardFrom (headerUnit m.data) m.address ++
        [⟨headerUnit m.data, m.address, interestPeriod m.data, isDisinterest m.data⟩] := by
  simp [heardFrom, hear, List.filter_append]

theorem heardFrom_hear_of_ne (T : Tracker) {m : Arrival} {e : Entry}
    (hne : e.key ≠ (headerUnit m.data, m.address)) :
    (T.hear m).heardFrom e.unit e.address = T.heardFrom e.unit e.address := by
  have hother : ¬(headerUnit m.data = e.unit ∧ m.address = e.address) := by
    rintro ⟨hunit, haddress⟩
    exact hne (by rw [Entry.key, hunit, haddress])
  simp [heardFrom, hear, List.filter_append, hother]

/-- Only the entry of the sender for that unit is removed. -/
theorem mem_forget (T : Tracker) (unit : UInt32) (address : Endpoint) (e : Entry) :
    e ∈ (T.forget unit address).interests ↔
      e ∈ T.interests ∧ ¬(e.unit = unit ∧ e.address = address) := by
  rw [forget, List.mem_filter, decide_eq_true_iff]

theorem Tracked.disinterest {T : Tracker} (h : T.Tracked) (m : Arrival) :
    ((T.hear m).forget (headerUnit m.data) m.address).Tracked where
  unique := h.unique.filter _
  latest := by
    intro e he
    obtain ⟨hold, hne⟩ := (mem_forget _ _ _ e).mp he
    have hkey : e.key ≠ (headerUnit m.data, m.address) := fun heq ↦ hne (Prod.mk.inj heq)
    exact (congrArg List.getLast? (T.heardFrom_hear_of_ne hkey)).trans (h.latest e hold)
  present := fun e he ↦ h.present e ((mem_forget _ _ _ e).mp he).1
  observed := h.observed
  newest := h.newest
  past := h.past

/-- An entry after `register` is the one of the sender, or was there. -/
theorem mem_register {T : Tracker} (h : KeyUnique Entry.key T.interests) {unit : UInt32}
    {address : Endpoint} {periodUs : UInt64} {e : Entry}
    (he : e ∈ (T.register unit address periodUs).interests) :
    e = ⟨unit, address, periodUs⟩ ∨ e.key ≠ (unit, address) ∧ e ∈ T.interests := by
  have hunique : KeyUnique Entry.key (T.register unit address periodUs).interests :=
    h.upsert (fun _ hkey ↦ hkey) rfl
  have hfound := (hunique.mem_iff e).mp he
  rw [register] at hfound
  by_cases hkey : e.key = (unit, address)
  · refine Or.inl ?_
    rw [hkey, lookup_upsert_self, Option.some.injEq] at hfound
    · cases hwas : lookup Entry.key (unit, address) T.interests with
      | none => rw [← hfound, hwas, Option.elim_none]
      | some was =>
        have hwaskey : Entry.key was = (unit, address) := key_of_lookup hwas
        obtain ⟨hunit, haddress⟩ := Prod.mk.inj hwaskey
        rw [← hfound, hwas, Option.elim_some, hunit, haddress]
    · exact fun _ h ↦ h
    · rfl
  · rw [lookup_upsert_of_ne hkey] at hfound
    · exact Or.inr ⟨hkey, mem_of_lookup hfound⟩
    · exact fun _ h ↦ h
    · rfl

theorem Tracked.interest {T : Tracker} (h : T.Tracked) {m : Arrival} {nowNs : ℤ}
    (hinterest : isDisinterest m.data = false) (hnow : T.clock ≤ nowNs) :
    { ((T.hear m).present m.address.paddr nowNs).register (headerUnit m.data) m.address
        (interestPeriod m.data) with clock := nowNs }.Tracked := by
  have hpresent := h.present_step m.address.paddr hnow
  refine ⟨h.unique.upsert (fun _ hkey ↦ hkey) rfl, fun e he ↦ ?_, fun e he ↦ ?_, hpresent.observed,
    hpresent.newest, hpresent.past⟩
  · rcases mem_register h.unique he with rfl | ⟨hkey, hold⟩
    · refine (congrArg List.getLast? (T.heardFrom_hear_self m)).trans ?_
      rw [List.getLast?_append, List.getLast?_singleton, hinterest]
      rfl
    · exact (congrArg List.getLast? (T.heardFrom_hear_of_ne hkey)).trans (h.latest e hold)
  · rcases mem_register h.unique he with rfl | ⟨hkey, hold⟩
    · exact ⟨nowNs, T.presence_present_self m.address.paddr nowNs⟩
    · exact hpresent.present e hold

/-! ### Steps and runs -/

theorem Tracked.purge {T : Tracker} (h : T.Tracked) (nowNs : ℤ) : (T.purge nowNs).Tracked := by
  have hpresence : ∀ (mac : UInt64) (lastSeen : ℤ), (T.purge nowNs).presence[mac]? = some lastSeen →
      T.presence[mac]? = some lastSeen := by
    intro mac lastSeen hlast
    rw [presence_purge] at hlast
    split_ifs at hlast
    exact hlast
  have heq := T.purge_eq nowNs
  refine ⟨?_, fun e he ↦ ?_, fun e he ↦ ?_, fun mac lastSeen hlast ↦ ?_,
    fun mac time lastSeen htime hlast ↦ ?_, ?_⟩
  · rw [Tracker.purge, foldl_bury]
    exact h.unique.filter _
  · rw [heq]
    exact h.latest e ((interests_purge T nowNs e).mp he).1
  · obtain ⟨hold, halive⟩ := (interests_purge T nowNs e).mp he
    rw [presence_purge, if_neg halive]
    exact h.present e hold
  · rw [heq]
    exact h.observed mac lastSeen (hpresence _ _ hlast)
  · rw [heq] at htime
    exact h.newest mac time lastSeen htime (hpresence _ _ hlast)
  · rw [heq]
    exact h.past

/-- Every step keeps the two tables in order. -/
theorem Tracked.step {T T' : Tracker} (h : T.Tracked) {action : TrackerAction}
    (hclock : T.ClockNondecreasing action) (hstep : T.step action = some T') : T'.Tracked := by
  obtain ⟨next, hact, rfl⟩ := Option.map_eq_some_iff.mp hstep
  cases action with
  | update m nowNs =>
    obtain rfl := Option.some.inj hact
    rw [ClockNondecreasing] at hclock
    by_cases hinterest : isInterest m.data
    · by_cases hdisinterest : isDisinterest m.data
      · have hreading : (TrackerAction.update m nowNs).reading = none := by
          rw [TrackerAction.reading, if_neg fun hand ↦ hand.2 hdisinterest]
        rw [Tracker.update, if_pos hinterest, if_pos hdisinterest, hreading]
        exact h.disinterest m
      · have hreading : (TrackerAction.update m nowNs).reading = some nowNs := by
          rw [TrackerAction.reading, if_pos ⟨hinterest, hdisinterest⟩]
        rw [hreading] at hclock
        rw [Tracker.update, if_pos hinterest, if_neg hdisinterest, hreading]
        exact h.interest (Bool.eq_false_iff.mpr hdisinterest) hclock
    · have hreading : (TrackerAction.update m nowNs).reading = none := by
        rw [TrackerAction.reading, if_neg fun hand ↦ hinterest hand.1]
      rw [Tracker.update, if_neg hinterest, hreading]
      exact h
  | onPresence source nowNs =>
    obtain rfl := Option.some.inj hact
    exact h.present_step source.paddr hclock
  | startTick nowNs =>
    rw [act] at hact
    split at hact
    · obtain rfl := Option.some.inj hact
      exact h.of_tables rfl rfl rfl rfl hclock
    · cases hact
  | lockedTick =>
    rw [act] at hact
    split at hact
    · obtain rfl := Option.some.inj hact
      exact (h.purge _).of_tables rfl rfl rfl rfl (by rw [T.purge_eq]; exact le_refl T.clock)
    · cases hact
  | send =>
    rw [act] at hact
    split at hact
    · obtain rfl := Option.some.inj hact
      exact h.of_tables rfl rfl rfl rfl (le_refl _)
    · obtain rfl := Option.some.inj hact
      exact h.of_tables rfl rfl rfl rfl (le_refl _)
    · cases hact

/-- Assumes: a run whose readings of the clock never decrease. -/
theorem tracked_of_run {clock : ℤ} {T : Tracker}
    (hrun : Reaches step ClockNondecreasing (initial clock) T) : T.Tracked :=
  hrun.invariant (fun _ _ _ h hclock hstep ↦ h.step hclock hstep) (tracked_initial clock)

/-- An entry survives the purge exactly when its vehicle was seen recently enough. -/
theorem Tracked.mem_purge_iff {T : Tracker} (h : T.Tracked) (nowNs : ℤ) {e : Entry}
    (he : e ∈ T.interests) :
    e ∈ (T.purge nowNs).interests ↔
      ∃ time, (e.address.paddr, time) ∈ T.seen ∧ nowNs - presenceLeaseNs ≤ time := by
  obtain ⟨lastSeen, hlast⟩ := h.present e he
  rw [interests_purge, and_iff_right he, mem_dead]
  constructor
  · intro halive
    refine ⟨lastSeen, h.observed _ lastSeen hlast, ?_⟩
    have hlease : ¬presenceLeaseNs < nowNs - lastSeen := fun hlt ↦ halive ⟨lastSeen, hlast, hlt⟩
    omega
  · rintro ⟨time, htime, hrecent⟩ ⟨lastSeen', hlast', hlt⟩
    have hle := h.newest _ time lastSeen' htime hlast'
    omega

/-- Assumes: a run whose readings of the clock never decrease. There is at most one entry for each
unit and address, with the period of the last interest message from there, which was no disinterest;
every entry has a presence record, and different vehicles have different keys. After a tick of the
broker every entry left is of a vehicle seen within the lease before the time of the tick, and no
entry of such a vehicle is gone; and a disinterest removes the entry of its sender for that unit
only. -/
theorem interests_follow_presence {clock : ℤ} {T : Tracker}
    (hrun : Reaches step ClockNondecreasing (initial clock) T) :
    (T.interests.map fun e ↦ (e.unit, e.address)).Nodup ∧
      (∀ e ∈ T.interests,
        (T.heardFrom e.unit e.address).getLast? = some ⟨e.unit, e.address, e.periodUs, false⟩) ∧
      (∀ e ∈ T.interests, (T.presence[macKey e.address.paddr]?).isSome) ∧
      Function.Injective macKey ∧
      (∀ nowNs T', T.repeater = .started nowNs → T.step .lockedTick = some T' →
        (∀ e ∈ T'.interests, ∃ time, (e.address.paddr, time) ∈ T'.seen ∧
          nowNs - presenceLeaseNs ≤ time) ∧
        ∀ e ∈ T.interests, ∀ time, (e.address.paddr, time) ∈ T.seen →
          nowNs - presenceLeaseNs ≤ time → e ∈ T'.interests) ∧
      ∀ m nowNs T', isInterest m.data → isDisinterest m.data →
        T.step (.update m nowNs) = some T' → ∀ e, e ∈ T'.interests ↔
          e ∈ T.interests ∧ ¬(e.unit = headerUnit m.data ∧ e.address = m.address) := by
  have h := tracked_of_run hrun
  refine ⟨h.unique, h.latest, fun e he ↦ ?_, macKey_injective, fun nowNs T' hstarted hstep ↦ ?_,
    fun m nowNs T' hinterest hdisinterest hstep e ↦ ?_⟩
  · obtain ⟨lastSeen, hlast⟩ := h.present e he
    rw [hlast]
    rfl
  · obtain ⟨next, hact, rfl⟩ := Option.map_eq_some_iff.mp hstep
    rw [act, hstarted] at hact
    obtain rfl := Option.some.inj hact
    have hinterests : ({ T.lockedTick nowNs with
        clock := TrackerAction.lockedTick.reading.getD T.clock } : Tracker).interests =
          (T.purge nowNs).interests := rfl
    have hseen : (T.lockedTick nowNs).seen = T.seen := seen_purge T nowNs
    constructor
    · intro e he
      rw [hinterests] at he
      obtain ⟨time, htime, hrecent⟩ :=
        (h.mem_purge_iff nowNs ((interests_purge T nowNs e).mp he).1).mp he
      exact ⟨time, hseen ▸ htime, hrecent⟩
    · intro e he time htime hrecent
      rw [hinterests]
      exact (h.mem_purge_iff nowNs he).mpr ⟨time, htime, hrecent⟩
  · obtain ⟨next, hact, rfl⟩ := Option.map_eq_some_iff.mp hstep
    obtain rfl := Option.some.inj hact
    rw [Tracker.update, if_pos hinterest, if_pos hdisinterest]
    exact mem_forget (T.hear m) (headerUnit m.data) m.address e

/-- An interest in a unit with a period of ten microseconds, from a vehicle. -/
def tenMicroseconds (mac : Address) (unit : UInt8) : Arrival :=
  ⟨⟨mac, 5⟩, quadrantNone, [0, unit, 0, 0, 0, 10, 0, 0, 0, 0, 0, 0, 0, 0]⟩

/-- Two vehicles ask for two units, and the lease of the first ends before the tick. -/
def expiryActions : List TrackerAction :=
  [.update (tenMicroseconds .internal 1) 5, .update (tenMicroseconds .broadcast 2) 3000000000,
    .startTick 4000000006]

theorem interests_follow_presence_expiryActions :
    ∃ T, run step ClockNondecreasing (initial 0) expiryActions = some T ∧
      T.interests.length = 2 ∧
      ∃ T', T.step .lockedTick = some T' ∧
        T'.interests = [⟨2, ⟨.broadcast, 5⟩, 10⟩] ∧
        ∀ e ∈ T'.interests, ∃ time, (e.address.paddr, time) ∈ T'.seen ∧
          4000000006 - presenceLeaseNs ≤ time := by
  have hrun : ((run step ClockNondecreasing (initial 0) expiryActions).bind fun T ↦
      (T.step .lockedTick).map fun T' ↦ (T.interests.length, T'.interests)) =
        some (2, [⟨2, ⟨.broadcast, 5⟩, 10⟩]) := by decide +kernel
  obtain ⟨T, hT, hnext⟩ := Option.bind_eq_some_iff.mp hrun
  obtain ⟨T', hT', hboth⟩ := Option.map_eq_some_iff.mp hnext
  obtain ⟨hlength, hleft⟩ := Prod.mk.inj hboth
  have hstarted : T.repeater = .started 4000000006 := by
    have hrepeater : (run step ClockNondecreasing (initial 0) expiryActions).map
        Tracker.repeater = some (.started 4000000006) := by rfl
    rw [hT] at hrepeater
    exact Option.some.inj hrepeater
  obtain ⟨-, -, -, -, htick, -⟩ := interests_follow_presence (reaches_of_run expiryActions hT)
  exact ⟨T, hT, hlength, T', hT', hleft, (htick 4000000006 T' hstarted hT').1⟩

end Tracker

end VehicleComm.SmartData
