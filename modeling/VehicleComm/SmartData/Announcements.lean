import VehicleComm.SmartData.InterestTracker

/-!
# What the broker announces

A tick of the broker sends at most one message about a unit, and which one depends on the interests
left after the purge of this tick and of the one before (`Tick.Follows`): the unit is announced with
the shortest period asked for, or it has just lost its last interest and is stopped, or nothing is
said.

Along a run the ticks therefore announce a unit in blocks, each followed by one disinterest before
the next (`Tracker.announcements_follow_interests`). The interests may come and go in any way
between the ticks, and while one waits for the mutex or sends; the record of a tick keeps the
interests that are left when it decides. What was decided is sent in order, and what has not been
sent yet is still with the tick.
-/

set_option autoImplicit false
set_option relaxedAutoImplicit false

namespace VehicleComm.SmartData

open Library Network Channel

def periodsOf (interests : List Entry) (unit : UInt32) : Set UInt64 :=
  {period | ∃ e ∈ interests, e.unit = unit ∧ e.periodUs = period}

def messagesAbout (unit : UInt32) (messages : List Announcement) : List Announcement :=
  messages.filter fun message ↦ message.unit = unit

/-! ### The shortest period of each unit -/

theorem getElem?_activate_self (active : Std.TreeMap UInt32 UInt64) (e : Entry) :
    (activate active e)[e.unit]? =
      some ((active[e.unit]?).elim e.periodUs fun best ↦
        if e.periodUs < best then e.periodUs else best) := by
  rw [activate]
  cases hbest : active[e.unit]? with
  | none => exact Std.TreeMap.getElem?_insert_self
  | some best =>
    rw [Option.elim_some]
    split_ifs with hlt
    · simp only [if_pos hlt]
      exact Std.TreeMap.getElem?_insert_self
    · simp only [if_neg hlt]
      exact hbest

theorem getElem?_activate_of_ne (active : Std.TreeMap UInt32 UInt64) (e : Entry) {unit : UInt32}
    (hne : unit ≠ e.unit) : (activate active e)[unit]? = active[unit]? := by
  have hinsert : (active.insert e.unit e.periodUs)[unit]? = active[unit]? := by
    rw [Std.TreeMap.getElem?_insert, if_neg (by simpa using Ne.symm hne)]
  rw [activate]
  cases active[e.unit]? with
  | none => exact hinsert
  | some best =>
    by_cases hlt : e.periodUs < best
    · simpa only [if_pos hlt] using hinsert
    · simp only [if_neg hlt]

/-- `active` has the shortest period of each unit that has an entry. -/
theorem leastOf_activeOf (interests : List Entry) (unit : UInt32) :
    LeastOf (periodsOf interests unit) (activeOf interests)[unit]? := by
  induction interests using List.reverseRecOn with
  | nil =>
    have hempty : periodsOf [] unit = ∅ := by
      simp [periodsOf]
    rw [hempty, activeOf, List.foldl_nil, Std.TreeMap.getElem?_emptyc]
    exact LeastOf.empty
  | append_singleton interests e ih =>
    rw [activeOf, List.foldl_concat, ← activeOf]
    by_cases hunit : unit = e.unit
    · subst hunit
      have hvalues : periodsOf (interests ++ [e]) e.unit =
          insert e.periodUs (periodsOf interests e.unit) := by
        ext period
        simp [periodsOf, or_and_right, exists_or, or_comm, eq_comm]
      rw [hvalues, getElem?_activate_self]
      exact ih.insert e.periodUs
    · have hvalues : periodsOf (interests ++ [e]) unit = periodsOf interests unit := by
        ext period
        simp [periodsOf, or_and_right, exists_or, Ne.symm hunit]
      rw [hvalues, getElem?_activate_of_ne _ _ hunit]
      exact ih

theorem mem_activeOf_iff (interests : List Entry) (unit : UInt32) :
    unit ∈ activeOf interests ↔ (periodsOf interests unit).Nonempty := by
  rw [Std.TreeMap.mem_iff_isSome_getElem?, Option.isSome_iff_ne_none, Ne,
    (leastOf_activeOf interests unit).eq_none_iff, Set.nonempty_iff_ne_empty]

/-! ### The messages of one tick -/

theorem messagesAbout_append (unit : UInt32) (messages messages' : List Announcement) :
    messagesAbout unit (messages ++ messages') =
      messagesAbout unit messages ++ messagesAbout unit messages' :=
  List.filter_append ..

theorem messagesAbout_map {α : Type*} {message : α → Announcement} {key : α → UInt32}
    (hkey : ∀ x, (message x).unit = key x) (unit : UInt32) (entries : List α) :
    messagesAbout unit (entries.map message) =
      (entries.filter fun x ↦ key x = unit).map message := by
  rw [messagesAbout, List.filter_map]
  simp only [Function.comp_def, hkey]

/-- A unit that was active and is no more is stopped, once. -/
theorem messagesAbout_stopping (activeUnits : Std.TreeSet UInt32)
    (active : Std.TreeMap UInt32 UInt64) (unit : UInt32) :
    messagesAbout unit (stopping activeUnits active) =
      if unit ∈ activeUnits ∧ unit ∉ active then [⟨unit, 0, true⟩] else [] := by
  have hunique : KeyUnique id activeUnits.toList := by
    rw [KeyUnique, List.map_id]
    refine (Std.TreeSet.distinct_toList (t := activeUnits)).imp fun hne heq ↦ hne ?_
    exact Std.compare_eq_iff_eq.mpr heq
  have hfilter := (hunique.filter fun other ↦ !active.contains other).filter_key unit
  rw [stopping, messagesAbout_map (fun _ ↦ rfl)]
  refine (congrArg (List.map _) hfilter).trans ?_
  rw [hunique.lookup_filter]
  by_cases hactive : unit ∈ activeUnits
  · have hfound : lookup id unit activeUnits.toList = some unit :=
      (hunique.mem_iff unit).mp (Std.TreeSet.mem_toList.mpr hactive)
    rw [hfound, Option.filter_some]
    by_cases hstill : unit ∈ active
    · rw [if_neg (by simpa using hstill), if_neg (fun hand ↦ hand.2 hstill)]
      rfl
    · have hcontains : active.contains unit = false := by
        rw [← Bool.not_eq_true, ← Std.TreeMap.mem_iff_contains]
        exact hstill
      rw [if_pos (by rw [hcontains]; rfl), if_pos ⟨hactive, hstill⟩]
      rfl
  · have hmissing : lookup id unit activeUnits.toList = none := by
      rw [lookup_eq_none_iff]
      rintro other hother rfl
      exact hactive (Std.TreeSet.mem_toList.mp hother)
    rw [hmissing, if_neg (fun hand ↦ hactive hand.1)]
    rfl

/-- An active unit is announced, once, with its period. -/
theorem messagesAbout_repeating (active : Std.TreeMap UInt32 UInt64) (unit : UInt32) :
    messagesAbout unit (repeating active) =
      (active[unit]?).elim [] fun period ↦ [⟨unit, period, false⟩] := by
  have hunique : KeyUnique Prod.fst active.toList := by
    rw [KeyUnique, List.nodup_iff_pairwise_ne, List.pairwise_map]
    refine (Std.TreeMap.distinct_keys_toList (t := active)).imp fun hne heq ↦ hne ?_
    exact Std.compare_eq_iff_eq.mpr heq
  have hlookup : lookup Prod.fst unit active.toList = (active[unit]?).map fun period ↦
      (unit, period) := by
    refine Option.ext fun entry ↦ ?_
    rw [Option.map_eq_some_iff]
    constructor
    · intro hfound
      obtain rfl : entry.1 = unit := key_of_lookup hfound
      exact ⟨entry.2, Std.TreeMap.mem_toList_iff_getElem?_eq_some.mp (mem_of_lookup hfound), rfl⟩
    · rintro ⟨period, hperiod, rfl⟩
      exact (hunique.mem_iff (unit, period)).mp
        (Std.TreeMap.mem_toList_iff_getElem?_eq_some.mpr hperiod)
  rw [repeating, messagesAbout_map (fun _ ↦ rfl)]
  refine (congrArg (List.map _) (hunique.filter_key unit)).trans ?_
  rw [hlookup]
  cases active[unit]? <;> rfl

/-- What a tick says about a unit: its shortest period; that it stops, if it was active before; or
nothing. -/
theorem messagesAbout_tick (activeUnits : Std.TreeSet UInt32) (interests : List Entry)
    (unit : UInt32) :
    messagesAbout unit (stopping activeUnits (activeOf interests) ++
        repeating (activeOf interests)) =
      match (activeOf interests)[unit]? with
      | some period => [⟨unit, period, false⟩]
      | none => if unit ∈ activeUnits then [⟨unit, 0, true⟩] else [] := by
  rw [messagesAbout_append, messagesAbout_stopping, messagesAbout_repeating]
  have hmem : unit ∈ activeOf interests ↔ (activeOf interests)[unit]?.isSome :=
    Std.TreeMap.mem_iff_isSome_getElem?
  cases hperiod : (activeOf interests)[unit]? with
  | none =>
    have hgone : unit ∉ activeOf interests := by
      rw [hmem, hperiod]
      exact Bool.false_ne_true
    simp [hgone]
  | some period =>
    have hhere : unit ∈ activeOf interests := by
      rw [hmem, hperiod]
      rfl
    simp [hhere]

/-! ### The invariant -/

def Tick.Announces (tick : Tick) (unit : UInt32) : Prop :=
  ∃ period, ⟨unit, period, false⟩ ∈ tick.messages

def Tick.Stops (tick : Tick) (unit : UInt32) : Prop :=
  ∃ period, ⟨unit, period, true⟩ ∈ tick.messages

/-- The interests that were left at the last of some ticks. -/
def lastInterests (ticks : List Tick) : List Entry := (ticks.getLast?.map Tick.interests).getD []

/-- What a tick says about every unit is determined by the interests left, and by those left at the
tick before. -/
def Tick.Follows (tick : Tick) (before : List Entry) : Prop :=
  ∀ unit, messagesAbout unit tick.messages =
    match (activeOf tick.interests)[unit]? with
    | some period => [⟨unit, period, false⟩]
    | none => if unit ∈ activeOf before then [⟨unit, 0, true⟩] else []

theorem mem_messages_iff (tick : Tick) (unit : UInt32) (period : UInt64) (disinterest : Bool) :
    ⟨unit, period, disinterest⟩ ∈ tick.messages ↔
      ⟨unit, period, disinterest⟩ ∈ messagesAbout unit tick.messages := by
  simp [messagesAbout]

section Follows

variable {tick : Tick} {before : List Entry} {unit : UInt32}

/-- A unit is announced with the shortest period asked for. -/
theorem Tick.Follows.announced (h : tick.Follows before) (period : UInt64) :
    ⟨unit, period, false⟩ ∈ tick.messages ↔ IsLeast (periodsOf tick.interests unit) period := by
  rw [mem_messages_iff, h unit, ← (leastOf_activeOf tick.interests unit).eq_some_iff]
  cases (activeOf tick.interests)[unit]? with
  | none =>
    dsimp only
    split_ifs <;> simp
  | some shortest => simp [eq_comm]

theorem Tick.Follows.announces_iff (h : tick.Follows before) :
    tick.Announces unit ↔ ∃ e ∈ tick.interests, e.unit = unit := by
  have hleast := leastOf_activeOf tick.interests unit
  constructor
  · rintro ⟨period, hmem⟩
    obtain ⟨e, he, hunit, -⟩ := ((h.announced period).mp hmem).1
    exact ⟨e, he, hunit⟩
  · rintro ⟨e, he, hunit⟩
    cases hshortest : (activeOf tick.interests)[unit]? with
    | none =>
      have hempty := hleast.eq_none_iff.mp hshortest
      exact absurd (hempty ▸ ⟨e, he, hunit, rfl⟩ : e.periodUs ∈ (∅ : Set UInt64))
        (Set.notMem_empty _)
    | some shortest =>
      exact ⟨shortest, (h.announced shortest).mpr ((hleast.eq_some_iff shortest).mp hshortest)⟩

/-- What a tick says about a unit it does not announce. -/
theorem Tick.Follows.messagesAbout_of_not_announces (h : tick.Follows before)
    (hquiet : ¬tick.Announces unit) :
    messagesAbout unit tick.messages =
      if unit ∈ activeOf before then [⟨unit, 0, true⟩] else [] := by
  have hnone : (activeOf tick.interests)[unit]? = none := by
    rw [(leastOf_activeOf tick.interests unit).eq_none_iff, Set.eq_empty_iff_forall_notMem]
    rintro period ⟨e, he, hunit, -⟩
    exact hquiet (h.announces_iff.mpr ⟨e, he, hunit⟩)
  rw [h unit, hnone]

theorem Tick.Follows.stops_iff (h : tick.Follows before) :
    tick.Stops unit ↔ unit ∈ activeOf before ∧ ∀ e ∈ tick.interests, e.unit ≠ unit := by
  have hquiet : (∀ e ∈ tick.interests, e.unit ≠ unit) ↔ ¬tick.Announces unit := by
    rw [h.announces_iff]
    push Not
    rfl
  rw [hquiet]
  constructor
  · rintro ⟨period, hmem⟩
    rw [mem_messages_iff] at hmem
    have hnot : ¬tick.Announces unit := by
      rintro ⟨shortest, hshortest⟩
      rw [mem_messages_iff, h unit] at hshortest
      rw [h unit] at hmem
      cases hactive : (activeOf tick.interests)[unit]? with
      | none =>
        rw [hactive] at hshortest
        dsimp only at hshortest
        split_ifs at hshortest <;> simp at hshortest
      | some shortest' =>
        rw [hactive] at hmem
        simp at hmem
    rw [h.messagesAbout_of_not_announces hnot] at hmem
    split_ifs at hmem with hbefore
    · exact ⟨hbefore, hnot⟩
    · exact absurd hmem List.not_mem_nil
  · rintro ⟨hbefore, hnot⟩
    refine ⟨0, ?_⟩
    rw [mem_messages_iff, h.messagesAbout_of_not_announces hnot, if_pos hbefore]
    exact List.mem_singleton_self _

theorem Tick.Follows.length_le_one (h : tick.Follows before) :
    (messagesAbout unit tick.messages).length ≤ 1 := by
  rw [h unit]
  cases (activeOf tick.interests)[unit]? with
  | none =>
    dsimp only
    split_ifs <;> simp
  | some period => exact le_refl 1

end Follows

/-- Whether a unit was active after some ticks: the last of them announced it. -/
theorem mem_activeOf_lastInterests {ticks : List Tick} {unit : UInt32}
    (h : ∀ last ∈ ticks.getLast?, ∃ before, last.Follows before) :
    unit ∈ activeOf (lastInterests ticks) ↔ ∃ last ∈ ticks.getLast?, last.Announces unit := by
  rw [mem_activeOf_iff, lastInterests]
  cases hlast : ticks.getLast? with
  | none => simp [periodsOf]
  | some last =>
    obtain ⟨before, hfollows⟩ := h last hlast
    have hannounces : last.Announces unit ↔ ∃ e ∈ last.interests, e.unit = unit :=
      hfollows.announces_iff
    rw [Option.map_some, Option.getD_some]
    constructor
    · rintro ⟨-, e, he, hunit, -⟩
      exact ⟨last, rfl, hannounces.mpr ⟨e, he, hunit⟩⟩
    · rintro ⟨last', hsame, hann⟩
      obtain rfl := Option.some.inj hsame
      obtain ⟨e, he, hunit⟩ := hannounces.mp hann
      exact ⟨e.periodUs, e, he, hunit, rfl⟩

namespace Tracker

/-- The messages of the last tick that are still to be sent. -/
def unsent (T : Tracker) : List Announcement :=
  match T.repeater with
  | .sending rest => rest
  | _ => []

/-- What holds of the record of the broker between any two steps. -/
structure Broadcasting (T : Tracker) : Prop where
  active : ∀ unit, unit ∈ T.activeUnits ↔ unit ∈ activeOf (lastInterests T.ticks)
  follows : ∀ earlier tick later, T.ticks = earlier ++ tick :: later →
    tick.Follows (lastInterests earlier)
  sent : T.sent ++ T.unsent = T.ticks.flatMap Tick.messages

theorem broadcasting_initial (clock : ℤ) : (initial clock).Broadcasting where
  active := fun unit ↦ iff_of_false (by simp [initial]) (by simp [initial, lastInterests, activeOf])
  follows := fun earlier tick later h ↦
    absurd h.symm (List.append_ne_nil_of_right_ne_nil earlier (List.cons_ne_nil tick later))
  sent := rfl

/-- The tables do not matter for the broker. -/
theorem Broadcasting.of_record {T T' : Tracker} (h : T.Broadcasting)
    (hactive : T'.activeUnits = T.activeUnits) (hticks : T'.ticks = T.ticks)
    (hsent : T'.sent ++ T'.unsent = T.sent ++ T.unsent) : T'.Broadcasting where
  active := by
    rw [hactive, hticks]
    exact h.active
  follows := by
    rw [hticks]
    exact h.follows
  sent := by
    rw [hsent, hticks]
    exact h.sent

theorem follows_append {ticks : List Tick} {last : Tick}
    (h : ∀ earlier tick later, ticks = earlier ++ tick :: later →
      tick.Follows (lastInterests earlier)) (hlast : last.Follows (lastInterests ticks)) :
    ∀ earlier tick later, ticks ++ [last] = earlier ++ tick :: later →
      tick.Follows (lastInterests earlier) := by
  intro earlier tick later heq
  rcases List.eq_nil_or_concat later with rfl | ⟨later', last', rfl⟩
  · obtain ⟨rfl, hsame⟩ := List.append_inj' heq rfl
    obtain rfl : last = tick := List.singleton_inj.mp hsame
    exact hlast
  · rw [List.concat_eq_append, ← List.cons_append, ← List.append_assoc] at heq
    obtain ⟨hticks, -⟩ := List.append_inj' heq rfl
    exact h earlier tick later' hticks

/-- What `broker_tick` decides. -/
def decided (T : Tracker) (nowNs : ℤ) : Tick where
  interests := (T.purge nowNs).interests
  messages := stopping (T.purge nowNs).activeUnits (activeOf (T.purge nowNs).interests) ++
    repeating (activeOf (T.purge nowNs).interests)

theorem activeUnits_lockedTick (T : Tracker) (nowNs : ℤ) :
    (T.lockedTick nowNs).activeUnits =
      Std.TreeSet.ofList (activeOf (T.decided nowNs).interests).keys := rfl

theorem ticks_lockedTick (T : Tracker) (nowNs : ℤ) :
    (T.lockedTick nowNs).ticks = T.ticks ++ [T.decided nowNs] :=
  congrArg (· ++ [T.decided nowNs]) (ticks_purge T nowNs)

theorem Broadcasting.lockedTick {T : Tracker} (h : T.Broadcasting) {nowNs : ℤ}
    (hstarted : T.repeater = .started nowNs) : (T.lockedTick nowNs).Broadcasting := by
  have hfollows : (T.decided nowNs).Follows (lastInterests T.ticks) := by
    intro unit
    rw [decided, messagesAbout_tick, activeUnits_purge]
    simp only [h.active unit]
  have hbefore : T.sent = T.ticks.flatMap Tick.messages := by
    rw [← h.sent, unsent, hstarted, List.append_nil]
  have hsent : (T.lockedTick nowNs).sent = T.sent := sent_purge T nowNs
  constructor
  · intro unit
    rw [activeUnits_lockedTick, ticks_lockedTick, lastInterests, List.getLast?_concat,
      Std.TreeSet.mem_ofList, List.contains_iff_mem, Std.TreeMap.mem_keys]
    rfl
  · rw [ticks_lockedTick]
    exact follows_append h.follows hfollows
  · rw [hsent, ticks_lockedTick, List.flatMap_append, ← hbefore, List.flatMap_singleton]
    rfl

theorem Broadcasting.step {T T' : Tracker} (h : T.Broadcasting) {action : TrackerAction}
    (hstep : T.step action = some T') : T'.Broadcasting := by
  obtain ⟨next, hact, rfl⟩ := Option.map_eq_some_iff.mp hstep
  refine Broadcasting.of_record (T := next) ?_ rfl rfl rfl
  cases action with
  | update m nowNs =>
    obtain rfl := Option.some.inj hact
    rw [Tracker.update]
    split_ifs
    · exact h.of_record rfl rfl rfl
    · exact h.of_record rfl rfl rfl
    · exact h
  | onPresence source nowNs =>
    obtain rfl := Option.some.inj hact
    exact h.of_record rfl rfl rfl
  | startTick nowNs =>
    rw [act] at hact
    split at hact
    · rename_i hasleep
      obtain rfl := Option.some.inj hact
      exact h.of_record rfl rfl (by rw [unsent, unsent, hasleep])
    · cases hact
  | lockedTick =>
    rw [act] at hact
    split at hact
    · rename_i hstarted
      obtain rfl := Option.some.inj hact
      exact h.lockedTick hstarted
    · cases hact
  | send =>
    rw [act] at hact
    split at hact
    · rename_i hsending
      obtain rfl := Option.some.inj hact
      exact h.of_record rfl rfl (by rw [unsent, unsent, hsending])
    · rename_i message rest hsending
      obtain rfl := Option.some.inj hact
      exact h.of_record rfl rfl (by rw [unsent, unsent, hsending]; simp)
    · cases hact

theorem broadcasting_of_run {clock : ℤ} {T : Tracker}
    (hrun : Reaches step Unguarded (initial clock) T) : T.Broadcasting :=
  hrun.invariant (fun _ _ _ h _ hstep ↦ h.step hstep) (broadcasting_initial clock)

/-! ### Blocks of announcements -/

/-- In a record, the ticks that come after one that does not announce a unit, and do not announce it
either, say nothing about it. -/
theorem Broadcasting.silent {T : Tracker} (h : T.Broadcasting) {unit : UInt32}
    (quiet : List Tick) :
    ∀ {earlier : List Tick} {last : Tick} {later : List Tick},
      T.ticks = earlier ++ last :: (quiet ++ later) → ¬last.Announces unit →
      (∀ tick ∈ quiet, ¬tick.Announces unit) →
      messagesAbout unit (quiet.flatMap Tick.messages) = [] := by
  induction quiet with
  | nil =>
    intros
    rfl
  | cons tick rest ih =>
    intro earlier last later hticks hlast hquiet
    have hsplit : T.ticks = (earlier ++ [last]) ++ tick :: (rest ++ later) := by
      rw [hticks, List.append_assoc]
      rfl
    have hfollows := h.follows _ tick _ hsplit
    have hinactive : unit ∉ activeOf (lastInterests (earlier ++ [last])) := by
      rw [mem_activeOf_lastInterests, List.getLast?_concat]
      · rintro ⟨last', hsame, hannounces⟩
        obtain rfl := Option.some.inj hsame
        exact hlast hannounces
      · rintro last' hsame
        obtain rfl := Option.some.inj (List.getLast?_concat.symm.trans hsame)
        exact ⟨_, h.follows earlier last _ hticks⟩
    have hnot := hquiet tick List.mem_cons_self
    rw [List.flatMap_cons, messagesAbout_append, hfollows.messagesAbout_of_not_announces hnot,
      if_neg hinactive, List.nil_append]
    exact ih hsplit hnot fun other hother ↦ hquiet other (List.mem_cons_of_mem tick hother)

/-- Assumes: a run. What has been sent is what the ticks decided, in order. At every tick a unit is
announced exactly when an interest in it is left after the purge, with the shortest period asked
for; it is stopped exactly when it was announced at the tick before and no interest in it is left;
and no tick sends two messages about it. Between two blocks of ticks that announce it there is
exactly one message about it, a disinterest. -/
theorem announcements_follow_interests {clock : ℤ} {T : Tracker}
    (hrun : Reaches step Unguarded (initial clock) T) (unit : UInt32) :
    T.sent ++ T.unsent = T.ticks.flatMap Tick.messages ∧
      (∀ earlier tick later, T.ticks = earlier ++ tick :: later →
        (tick.Announces unit ↔ ∃ e ∈ tick.interests, e.unit = unit) ∧
        (∀ period, ⟨unit, period, false⟩ ∈ tick.messages ↔
          IsLeast {period | ∃ e ∈ tick.interests, e.unit = unit ∧ e.periodUs = period} period) ∧
        (tick.Stops unit ↔ (∃ last ∈ earlier.getLast?, last.Announces unit) ∧
          ∀ e ∈ tick.interests, e.unit ≠ unit) ∧
        (messagesAbout unit tick.messages).length ≤ 1) ∧
      ∀ earlier first between second later,
        T.ticks = earlier ++ first :: (between ++ second :: later) → between ≠ [] →
        first.Announces unit → second.Announces unit →
        (∀ tick ∈ between, ¬tick.Announces unit) →
        messagesAbout unit (between.flatMap Tick.messages) = [⟨unit, 0, true⟩] := by
  have h := broadcasting_of_run hrun
  have hactive : ∀ earlier later, T.ticks = earlier ++ later →
      (unit ∈ activeOf (lastInterests earlier) ↔
        ∃ last ∈ earlier.getLast?, last.Announces unit) := by
    intro earlier later hticks
    rcases List.eq_nil_or_concat earlier with rfl | ⟨earlier', last, rfl⟩
    · exact mem_activeOf_lastInterests (by simp)
    · rw [List.concat_eq_append] at hticks ⊢
      refine mem_activeOf_lastInterests fun last' hsame ↦ ?_
      obtain rfl := Option.some.inj (List.getLast?_concat.symm.trans hsame)
      exact ⟨_, h.follows earlier' last later (by rw [hticks, List.append_assoc]; rfl)⟩
  refine ⟨h.sent, fun earlier tick later hticks ↦ ?_,
    fun earlier first between second later hticks hbetween hfirst _ hquiet ↦ ?_⟩
  · have hfollows := h.follows earlier tick later hticks
    refine ⟨hfollows.announces_iff, hfollows.announced, ?_, hfollows.length_le_one⟩
    rw [hfollows.stops_iff, hactive earlier _ hticks]
  · obtain ⟨stop, rest, rfl⟩ := List.exists_cons_of_ne_nil hbetween
    have hsplit : T.ticks = (earlier ++ [first]) ++ stop :: (rest ++ second :: later) := by
      rw [hticks, List.append_assoc]
      rfl
    have hfollows := h.follows _ stop _ hsplit
    have hnot := hquiet stop List.mem_cons_self
    have hbefore : unit ∈ activeOf (lastInterests (earlier ++ [first])) := by
      rw [hactive _ _ hsplit, List.getLast?_concat]
      exact ⟨first, rfl, hfirst⟩
    have hrest := h.silent rest hsplit hnot fun other hother ↦
      hquiet other (List.mem_cons_of_mem stop hother)
    rw [List.flatMap_cons, messagesAbout_append, hrest,
      hfollows.messagesAbout_of_not_announces hnot, if_pos hbefore, List.append_nil]

/-- An interest is announced at two ticks, withdrawn, and missed at the third. -/
def withdrawalActions : List TrackerAction :=
  [.update (tenMicroseconds .internal 1) 5,
    .startTick 6, .lockedTick, .send, .send, .startTick 7, .lockedTick, .send, .send,
    .update ⟨⟨.internal, 5⟩, quadrantNone, [0, 1, 0, 0, 0, 10, 0, 0, 0, 0, 0, 0, 0, 1]⟩ 8,
    .startTick 9, .lockedTick, .send]

theorem announcements_follow_interests_withdrawalActions :
    ∃ T, run step Unguarded (initial 0) withdrawalActions = some T ∧
      T.sent = [⟨1, 10, false⟩, ⟨1, 10, false⟩, ⟨1, 0, true⟩] ∧
      T.sent ++ T.unsent = T.ticks.flatMap Tick.messages := by
  have hrun : (run step Unguarded (initial 0) withdrawalActions).map Tracker.sent =
      some [⟨1, 10, false⟩, ⟨1, 10, false⟩, ⟨1, 0, true⟩] := by decide +kernel
  obtain ⟨T, hT, hsent⟩ := Option.map_eq_some_iff.mp hrun
  exact ⟨T, hT, hsent, (announcements_follow_interests (reaches_of_run withdrawalActions hT) 1).1⟩

end Tracker

end VehicleComm.SmartData
