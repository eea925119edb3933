import VehicleComm.Library.GuardedRun
import VehicleComm.Library.WrappingCounter

/-!
# The GPS module of the kernel

`gps.c`: the quadrant of a vehicle, in a grid of two rows and two columns. The module moves it to a
neighbour when it is asked for the quadrant and `GPS_MOVE_INTERVAL` has passed since the last move;
`GPS_IOC_SET_FIXED` freezes it.

Any number of threads call `gps_ioctl`; what they do under `gps_lock` and what they do after it are
steps of their own, with time passing in between. Time is counted in jiffies from any origin, and
`jiffies` is a counter of that which wraps. `copy_to_user` may fail. The times of the moves, the
quadrants taken under the lock and those that reached their callers are kept for the record.

The quadrants walk on the grid in the order in which they are taken (`walk_is_lawful`). They do not
always reach their callers in that order, and not all of them do (`diagonal_reported`).

Left out are `misc_register`, the messages other than the one of `GPS_IOC_SET_FIXED`, and the open
and close of the device.
-/

set_option autoImplicit false
set_option relaxedAutoImplicit false

namespace VehicleComm.Kernel

open Library

/-! ### The grid -/

/-- `GPS_QUADRANTS`. -/
def gpsQuadrants : ℕ := 4

def InGrid (quadrant : ℤ) : Prop := 0 ≤ quadrant ∧ quadrant < gpsQuadrants

instance (quadrant : ℤ) : Decidable (InGrid quadrant) := inferInstanceAs (Decidable (_ ∧ _))

/-- Two quadrants side by side: in the same row or in the same column, not in both. -/
def Adjacent (p q : ℤ) : Prop := p / 2 = q / 2 ∧ p % 2 ≠ q % 2 ∨ p / 2 ≠ q / 2 ∧ p % 2 = q % 2

/-- Equal or adjacent. -/
def NextTo (p q : ℤ) : Prop := p = q ∨ Adjacent p q

instance (p q : ℤ) : Decidable (Adjacent p q) := inferInstanceAs (Decidable (_ ∨ _))

instance (p q : ℤ) : Decidable (NextTo p q) := inferInstanceAs (Decidable (_ ∨ _))

/-- The table `gps_neighbors`. -/
def gpsNeighbors : List (ℤ × ℤ) := [(1, 2), (0, 3), (0, 3), (1, 2)]

/-- `gps_neighbors[quadrant][random % 2]`, inside of the table. -/
def neighborOf (quadrant : ℤ) (random : UInt32) : Option ℤ :=
  if 0 ≤ quadrant then
    gpsNeighbors[quadrant.toNat]?.map fun row ↦ if random % 2 = 0 then row.1 else row.2
  else none

/-- Every quadrant of the grid is in the table, with two neighbours that are. -/
theorem neighborOf_of_inGrid {quadrant : ℤ} (h : InGrid quadrant) (random : UInt32) :
    ∃ next, neighborOf quadrant random = some next ∧ InGrid next ∧ Adjacent quadrant next := by
  obtain ⟨hlow, hhigh⟩ := h
  have hcases : quadrant = 0 ∨ quadrant = 1 ∨ quadrant = 2 ∨ quadrant = 3 := by
    rw [gpsQuadrants] at hhigh
    omega
  by_cases heven : random % 2 = 0
  · rcases hcases with rfl | rfl | rfl | rfl <;>
      simp [neighborOf, gpsNeighbors, heven, InGrid, gpsQuadrants, Adjacent]
  · rcases hcases with rfl | rfl | rfl | rfl <;>
      simp [neighborOf, gpsNeighbors, heven, InGrid, gpsQuadrants, Adjacent]

/-! ### The device -/

/-- The kernel that the module runs in: the width of `unsigned long`, and the `HZ` for which
`3 * HZ` is an `int`. -/
structure Config where
  bits : ℕ
  hz : ℕ
  wide : 32 ≤ bits
  small : 3 * hz < 2 ^ 31

/-- `GPS_MOVE_INTERVAL`. -/
def Config.moveInterval (k : Config) : ℕ := 3 * k.hz

/-- Half the range of `jiffies` is longer than the interval. -/
theorem Config.moveInterval_le (k : Config) : 2 * k.moveInterval ≤ 2 ^ k.bits := by
  have hsmall := k.small
  have hwide : 2 ^ 32 ≤ 2 ^ k.bits := Nat.pow_le_pow_right two_pos k.wide
  rw [moveInterval]
  omega

/-- The number of a command, `_IOC(dir, type, nr, size)`. -/
def ioc (dir type nr size : UInt32) : UInt32 := dir <<< 30 ||| size <<< 16 ||| type <<< 8 ||| nr

/-- `GPS_IOC_MAGIC`, the character `g`. -/
def gpsIocMagic : UInt32 := 0x67

/-- `_IOR` of an `int`. -/
def gpsIocGetQuadrant : UInt32 := ioc 2 gpsIocMagic 1 4

/-- `_IO`. -/
def gpsIocSetFixed : UInt32 := ioc 0 gpsIocMagic 2 0

inductive Command
  | getQuadrant
  | setFixed
deriving DecidableEq

/-- The cases of `gps_ioctl`. -/
def commandOf (cmd : UInt32) : Option Command :=
  if cmd = gpsIocGetQuadrant then some .getQuadrant
  else if cmd = gpsIocSetFixed then some .setFixed
  else none

/-- `-EFAULT`. -/
def badAddress : ℤ := -14

/-- `-ENOTTY`. -/
def notSupported : ℤ := -25

/-- Where the thread that holds `gps_lock` is: in `gps_advance_locked` before the tests, before the
move and before the new `last_change`; before `q = quadrant`; and before `fixed = true`. -/
inductive Section
  | checking
  | moving
  | stamping
  | reading
  | fixing
deriving DecidableEq

/-- Where a thread is: out of `gps_ioctl`, with the result of its last call; at the lock; with the
lock; before `copy_to_user`, with the place of its quadrant among those taken and the quadrant; and
before `pr_info`. -/
inductive IoctlPhase
  | outside (result : Option ℤ)
  | locking (command : Command)
  | inside
  | copying (index : ℕ) (q : ℤ)
  | logging
deriving DecidableEq

/-- A quadrant that reached its caller, with its place among those taken. -/
structure Report where
  index : ℕ
  value : ℤ
deriving DecidableEq

/-- The module with the threads `τ` that call it, the time, and for the record the times of the
moves, the quadrants taken under the lock, those reported and those written to the log. -/
structure Gps (k : Config) (τ : Type*) where
  now : ℕ
  quadrant : ℤ
  lastChange : BitVec k.bits
  fixed : Bool
  gpsLock : Option (τ × Section)
  calls : τ → IoctlPhase
  moves : List ℕ
  taken : List ℤ
  reported : List Report
  logged : List ℤ

/-- What may happen: time passes, a thread calls `gps_ioctl`, a thread goes on, with the random
number that it may draw, and `copy_to_user` succeeds or fails. -/
inductive GpsAction (τ : Type*)
  | elapse (d : ℕ)
  | ioctl (t : τ) (cmd : UInt32)
  | proceed (t : τ) (random : UInt32)
  | copyToUser (t : τ) (ok : Bool)

namespace Gps

variable {k : Config} {τ : Type*}

def jiffies (s : Gps k τ) : BitVec k.bits := counterAt k.bits s.now

/-- `gps_init`, for a value of the parameter `initial_quadrant` and a random number. -/
def gpsInit (k : Config) (τ : Type*) (now : ℕ) (initialQuadrant : ℤ) (random : UInt32) :
    Gps k τ where
  now := now
  quadrant :=
    if 0 ≤ initialQuadrant ∧ initialQuadrant < gpsQuadrants then initialQuadrant
    else (random.toNat % gpsQuadrants : ℕ)
  lastChange := counterAt k.bits now
  fixed := false
  gpsLock := none
  calls := fun _ ↦ .outside none
  moves := []
  taken := []
  reported := []
  logged := []

section Step

variable [DecidableEq τ]

def goTo (s : Gps k τ) (t : τ) (phase : IoctlPhase) : Gps k τ :=
  { s with calls := Function.update s.calls t phase }

/-- The next step of the thread that holds `gps_lock`. -/
def locked (s : Gps k τ) (t : τ) (random : UInt32) : Section → Option (Gps k τ)
  | .checking =>
    if s.fixed then some { s with gpsLock := some (t, .reading) }
    else if Before s.jiffies (s.lastChange + BitVec.ofNat k.bits k.moveInterval) then
      some { s with gpsLock := some (t, .reading) }
    else some { s with gpsLock := some (t, .moving) }
  | .moving =>
    (neighborOf s.quadrant random).map fun next ↦
      { s with
        quadrant := next
        gpsLock := some (t, .stamping)
        moves := s.moves ++ [s.now] }
  | .stamping =>
    some { s with
      lastChange := s.jiffies
      gpsLock := some (t, .reading) }
  | .reading =>
    some ({ s with
      gpsLock := none
      taken := s.taken ++ [s.quadrant] }.goTo t (.copying s.taken.length s.quadrant))
  | .fixing =>
    some ({ s with
      fixed := true
      gpsLock := none }.goTo t .logging)

def entry : Command → Section
  | .getQuadrant => .checking
  | .setFixed => .fixing

/-- The next step of a thread in `gps_ioctl`. -/
def proceed (s : Gps k τ) (t : τ) (random : UInt32) : Option (Gps k τ) :=
  match s.calls t with
  | .locking command =>
    if s.gpsLock = none then some ({ s with gpsLock := some (t, entry command) }.goTo t .inside)
    else none
  | .inside =>
    match s.gpsLock with
    | some (holder, place) => if holder = t then s.locked t random place else none
    | none => none
  | .logging => some ({ s with logged := s.logged ++ [s.quadrant] }.goTo t (.outside (some 0)))
  | .outside _ | .copying _ _ => none

def step (s : Gps k τ) : GpsAction τ → Option (Gps k τ)
  | .elapse d => some { s with now := s.now + d }
  | .ioctl t cmd =>
    match s.calls t with
    | .outside _ =>
      match commandOf cmd with
      | some command => some (s.goTo t (.locking command))
      | none => some (s.goTo t (.outside (some notSupported)))
    | _ => none
  | .proceed t random => s.proceed t random
  | .copyToUser t ok =>
    match s.calls t with
    | .copying index q =>
      if ok then
        some ({ s with reported := s.reported ++ [Report.mk index q] }.goTo t (.outside (some 0)))
      else some (s.goTo t (.outside (some badAddress)))
    | _ => none

end Step

/-! ### What each place of the lock knows -/

def Settled (s : Gps k τ) : Prop := ∀ q ∈ s.taken.getLast?, q = s.quadrant

/-- The last quadrant taken is the quadrant or next to it. -/
def Near (s : Gps k τ) : Prop := ∀ q ∈ s.taken.getLast?, NextTo q s.quadrant

/-- `last_change` was read from `jiffies` at a time after all moves. -/
def Stamped (s : Gps k τ) : Prop :=
  ∃ stamp ≤ s.now, s.lastChange = counterAt k.bits stamp ∧ ∀ m ∈ s.moves, m ≤ stamp

def PlaceSound (s : Gps k τ) : Option Section → Prop
  | some .moving => s.fixed = false ∧ s.Settled ∧ ∀ m ∈ s.moves, m + k.moveInterval ≤ s.now
  | some .stamping => s.fixed = false ∧ s.Near
  | some .reading => s.Near ∧ s.Stamped
  | some .checking | some .fixing | none => s.Settled ∧ s.Stamped

/-- What a thread knows of the quadrants taken and of `fixed`. -/
def PhaseSound (taken : List ℤ) (fixed : Bool) : IoctlPhase → Prop
  | .copying index q => taken[index]? = some q
  | .logging => fixed = true
  | .outside _ | .locking _ | .inside => True

/-- The quadrants taken walk on the grid, the moves keep their distance, what is reported was taken,
and what is logged is the quadrant that was frozen. -/
structure Sound (s : Gps k τ) : Prop where
  inGrid : InGrid s.quadrant
  walk : s.taken.IsChain NextTo
  past : ∀ m ∈ s.moves, m ≤ s.now
  spaced : s.moves.Pairwise fun m n ↦ m + k.moveInterval ≤ n
  place : s.PlaceSound (s.gpsLock.map Prod.snd)
  phases : ∀ t, PhaseSound s.taken s.fixed (s.calls t)
  reports : ∀ r ∈ s.reported, s.taken[r.index]? = some r.value
  logs : ∀ q ∈ s.logged, s.fixed = true ∧ q = s.quadrant

theorem Settled.near {s : Gps k τ} (h : s.Settled) : s.Near := fun q hq ↦ Or.inl (h q hq)

/-- What was taken stays where it is, and what is frozen stays frozen. -/
theorem PhaseSound.mono {taken taken' : List ℤ} {fixed fixed' : Bool} {phase : IoctlPhase}
    (h : PhaseSound taken fixed phase) (htaken : taken <+: taken')
    (hfixed : fixed = true → fixed' = true) : PhaseSound taken' fixed' phase := by
  cases phase with
  | copying index q =>
    obtain ⟨more, rfl⟩ := htaken
    obtain ⟨hindex, -⟩ := List.getElem?_eq_some_iff.mp h
    exact (List.getElem?_append_left hindex).trans h
  | logging => exact hfixed h
  | outside result => trivial
  | locking command => trivial
  | inside => trivial

section Steps

variable {s : Gps k τ}

/-- The module after `gps_init`. -/
theorem sound_gpsInit (now : ℕ) (initialQuadrant : ℤ) (random : UInt32) :
    (gpsInit k τ now initialQuadrant random).Sound where
  inGrid := by
    have hrandom : random.toNat % gpsQuadrants < gpsQuadrants := Nat.mod_lt _ (by decide)
    simp only [gpsInit]
    split_ifs with hgiven
    · exact hgiven
    · exact ⟨Int.natCast_nonneg _, Int.ofNat_lt.mpr hrandom⟩
  walk := List.isChain_nil
  past := by simp [gpsInit]
  spaced := List.Pairwise.nil
  place := by
    refine ⟨?_, now, le_rfl, rfl, ?_⟩
    · simp [Settled, gpsInit]
    · simp [gpsInit]
  phases := fun _ ↦ trivial
  reports := by simp [gpsInit]
  logs := by simp [gpsInit]

theorem Stamped.elapse (h : s.Stamped) (d : ℕ) : Stamped { s with now := s.now + d } := by
  obtain ⟨stamp, hstamp, hchange, hmoves⟩ := h
  exact ⟨stamp, by simp only; omega, hchange, hmoves⟩

theorem Sound.elapse (h : s.Sound) (d : ℕ) : Sound { s with now := s.now + d } where
  inGrid := h.inGrid
  walk := h.walk
  past := fun m hm ↦ (h.past m hm).trans (Nat.le_add_right _ _)
  spaced := h.spaced
  place := by
    have hplace := h.place
    rcases hlock : s.gpsLock.map Prod.snd with _ | place
    · rw [hlock] at hplace
      exact ⟨hplace.1, hplace.2.elapse d⟩
    · rw [hlock] at hplace
      cases place with
      | checking => exact ⟨hplace.1, hplace.2.elapse d⟩
      | moving =>
        exact ⟨hplace.1, hplace.2.1, fun m hm ↦ (hplace.2.2 m hm).trans (Nat.le_add_right _ _)⟩
      | stamping => exact hplace
      | reading => exact ⟨hplace.1, hplace.2.elapse d⟩
      | fixing => exact ⟨hplace.1, hplace.2.elapse d⟩
  phases := h.phases
  reports := h.reports
  logs := h.logs

/-- The lock changes hands, or its holder goes on. -/
theorem Sound.relock (h : s.Sound) (lock : Option (τ × Section))
    (hplace : s.PlaceSound (lock.map Prod.snd)) : Sound { s with gpsLock := lock } where
  inGrid := h.inGrid
  walk := h.walk
  past := h.past
  spaced := h.spaced
  place := hplace
  phases := h.phases
  reports := h.reports
  logs := h.logs

theorem Sound.place_of_lock (h : s.Sound) {t : τ} {place : Section}
    (hlock : s.gpsLock = some (t, place)) : s.PlaceSound (some place) := by
  have hplace := h.place
  rwa [hlock] at hplace

/-- The new `last_change`. -/
theorem Sound.stamp (h : s.Sound) {t : τ} (hlock : s.gpsLock = some (t, .stamping)) :
    Sound { s with
      lastChange := s.jiffies
      gpsLock := some (t, .reading) } where
  inGrid := h.inGrid
  walk := h.walk
  past := h.past
  spaced := h.spaced
  place := ⟨(h.place_of_lock hlock).2, s.now, le_rfl, rfl, h.past⟩
  phases := h.phases
  reports := h.reports
  logs := h.logs

/-- A quadrant is taken, and the lock left. -/
theorem Sound.take (h : s.Sound) {t : τ} (hlock : s.gpsLock = some (t, .reading)) :
    Sound { s with
      gpsLock := none
      taken := s.taken ++ [s.quadrant] } where
  inGrid := h.inGrid
  walk := by
    refine h.walk.append (List.isChain_singleton _) fun p hp q hq ↦ ?_
    obtain rfl : s.quadrant = q := by simpa using hq
    exact (h.place_of_lock hlock).1 p hp
  past := h.past
  spaced := h.spaced
  place := by
    refine ⟨fun q hq ↦ ?_, (h.place_of_lock hlock).2⟩
    simpa [eq_comm] using hq
  phases := fun u ↦ (h.phases u).mono (List.prefix_append _ _) id
  reports := by
    intro r hr
    obtain ⟨hindex, -⟩ := List.getElem?_eq_some_iff.mp (h.reports r hr)
    exact (List.getElem?_append_left hindex).trans (h.reports r hr)
  logs := h.logs

/-- What was taken reaches its caller. -/
theorem Sound.report (h : s.Sound) (report : Report)
    (htaken : s.taken[report.index]? = some report.value) :
    Sound { s with reported := s.reported ++ [report] } where
  inGrid := h.inGrid
  walk := h.walk
  past := h.past
  spaced := h.spaced
  place := h.place
  phases := h.phases
  reports := by
    intro r hr
    rcases List.mem_append.mp hr with hold | hnew
    · exact h.reports r hold
    · obtain rfl := List.mem_singleton.mp hnew
      exact htaken
  logs := h.logs

/-- The frozen quadrant is written to the log. -/
theorem Sound.log (h : s.Sound) (hfrozen : s.fixed = true) :
    Sound { s with logged := s.logged ++ [s.quadrant] } where
  inGrid := h.inGrid
  walk := h.walk
  past := h.past
  spaced := h.spaced
  place := h.place
  phases := h.phases
  reports := h.reports
  logs := by
    intro q hq
    rcases List.mem_append.mp hq with hold | hnew
    · exact h.logs q hold
    · exact ⟨hfrozen, List.mem_singleton.mp hnew⟩

/-- The quadrant is frozen, and the lock left. -/
theorem Sound.freeze (h : s.Sound) {t : τ} (hlock : s.gpsLock = some (t, .fixing)) :
    Sound { s with
      fixed := true
      gpsLock := none } where
  inGrid := h.inGrid
  walk := h.walk
  past := h.past
  spaced := h.spaced
  place := h.place_of_lock hlock
  phases := fun u ↦ (h.phases u).mono (List.prefix_refl _) fun _ ↦ rfl
  reports := h.reports
  logs := fun q hq ↦ ⟨rfl, (h.logs q hq).2⟩

variable [DecidableEq τ]

theorem Sound.goTo (h : s.Sound) (t : τ) (phase : IoctlPhase)
    (hphase : PhaseSound s.taken s.fixed phase) : (s.goTo t phase).Sound where
  inGrid := h.inGrid
  walk := h.walk
  past := h.past
  spaced := h.spaced
  place := h.place
  phases := by
    intro u
    by_cases hu : u = t
    · subst hu
      simpa [Gps.goTo] using hphase
    · simpa [Gps.goTo, hu] using h.phases u
  reports := h.reports
  logs := h.logs

/-- The tests of `gps_advance_locked`. An interval that is over on the counter is over in time. -/
theorem Sound.check (h : s.Sound) {t : τ} (hlock : s.gpsLock = some (t, .checking))
    {random : UInt32} {s' : Gps k τ} (hstep : s.locked t random .checking = some s') :
    s'.Sound := by
  obtain ⟨hsettled, hstamped⟩ := h.place_of_lock hlock
  simp only [locked] at hstep
  split_ifs at hstep with hfixed hbefore
  · obtain rfl := Option.some.inj hstep
    exact h.relock _ ⟨hsettled.near, hstamped⟩
  · obtain rfl := Option.some.inj hstep
    exact h.relock _ ⟨hsettled.near, hstamped⟩
  · obtain rfl := Option.some.inj hstep
    refine h.relock _ ⟨by simpa using hfixed, hsettled, fun m hm ↦ ?_⟩
    obtain ⟨stamp, hstamp, hchange, hmoves⟩ := hstamped
    rw [hchange] at hbefore
    have hover := le_of_not_before k.moveInterval_le hstamp hbefore
    exact (Nat.add_le_add_right (hmoves m hm) _).trans hover

/-- The move. The last quadrant taken was the one that is left. -/
theorem Sound.move (h : s.Sound) {t : τ} (hlock : s.gpsLock = some (t, .moving))
    {random : UInt32} {s' : Gps k τ} (hstep : s.locked t random .moving = some s') : s'.Sound := by
  obtain ⟨hfree, hsettled, hover⟩ := h.place_of_lock hlock
  obtain ⟨next, hnext, rfl⟩ := Option.map_eq_some_iff.mp hstep
  obtain ⟨other, hother, hin, hadjacent⟩ := neighborOf_of_inGrid h.inGrid random
  obtain rfl : next = other := Option.some.inj (hnext.symm.trans hother)
  constructor
  · exact hin
  · exact h.walk
  · intro m hm
    rcases List.mem_append.mp hm with hm | hm
    · exact h.past m hm
    · exact (List.mem_singleton.mp hm).le
  · refine List.pairwise_append.mpr ⟨h.spaced, List.pairwise_singleton _ _, ?_⟩
    intro m hm n hn
    rw [List.mem_singleton.mp hn]
    exact hover m hm
  · refine ⟨hfree, fun q hq ↦ Or.inr ?_⟩
    rw [hsettled q hq]
    exact hadjacent
  · exact h.phases
  · exact h.reports
  · intro q hq
    have hfrozen := (h.logs q hq).1
    rw [hfree] at hfrozen
    contradiction

/-- The steps under the lock. -/
theorem Sound.locked (h : s.Sound) {t : τ} {place : Section} (hlock : s.gpsLock = some (t, place))
    {random : UInt32} {s' : Gps k τ} (hstep : s.locked t random place = some s') : s'.Sound := by
  cases place with
  | checking => exact h.check hlock hstep
  | moving => exact h.move hlock hstep
  | stamping =>
    obtain rfl := Option.some.inj hstep
    exact h.stamp hlock
  | reading =>
    obtain rfl := Option.some.inj hstep
    have hphase : PhaseSound (s.taken ++ [s.quadrant]) s.fixed
        (.copying s.taken.length s.quadrant) := List.getElem?_concat_length
    exact (h.take hlock).goTo t _ hphase
  | fixing =>
    obtain rfl := Option.some.inj hstep
    have hphase : PhaseSound s.taken true .logging := rfl
    exact (h.freeze hlock).goTo t _ hphase

theorem Sound.proceed (h : s.Sound) {t : τ} {random : UInt32} {s' : Gps k τ}
    (hstep : s.proceed t random = some s') : s'.Sound := by
  rcases hcall : s.calls t with result | command | _ | ⟨index, q⟩ | _ <;>
    simp only [Gps.proceed, hcall] at hstep
  · contradiction
  · split_ifs at hstep with hfree
    obtain rfl := Option.some.inj hstep
    have hplace := h.place
    rw [hfree] at hplace
    have hentry : s.PlaceSound (some (entry command)) := by
      cases command with
      | getQuadrant => exact hplace
      | setFixed => exact hplace
    exact (h.relock (some (t, entry command)) hentry).goTo t .inside trivial
  · split at hstep
    · next holder place hlock =>
      split_ifs at hstep with hholder
      subst hholder
      exact h.locked hlock hstep
    · contradiction
  · contradiction
  · obtain rfl := Option.some.inj hstep
    have hfrozen : PhaseSound s.taken s.fixed .logging := hcall ▸ h.phases t
    exact (h.log hfrozen).goTo t (.outside (some 0)) trivial

theorem Sound.step (h : s.Sound) {action : GpsAction τ} {s' : Gps k τ}
    (hstep : s.step action = some s') : s'.Sound := by
  cases action with
  | elapse d =>
    obtain rfl := Option.some.inj hstep
    exact h.elapse d
  | ioctl t cmd =>
    simp only [Gps.step] at hstep
    split at hstep
    · split at hstep
      · next command _ =>
        obtain rfl := Option.some.inj hstep
        exact h.goTo t (.locking command) trivial
      · obtain rfl := Option.some.inj hstep
        exact h.goTo t (.outside (some notSupported)) trivial
    · contradiction
  | proceed t random => exact h.proceed hstep
  | copyToUser t ok =>
    simp only [Gps.step] at hstep
    split at hstep
    · next index q hcall =>
      split_ifs at hstep with hok
      · obtain rfl := Option.some.inj hstep
        have htaken : PhaseSound s.taken s.fixed (.copying index q) := hcall ▸ h.phases t
        exact (h.report ⟨index, q⟩ htaken).goTo t (.outside (some 0)) trivial
      · obtain rfl := Option.some.inj hstep
        exact h.goTo t (.outside (some badAddress)) trivial
    · contradiction

/-! ### The frozen quadrant -/

/-- Later than a state in which the quadrant was frozen: it is the same, and whoever took one since
took that. -/
structure FrozenSince (s t : Gps k τ) : Prop where
  sound : t.Sound
  fixed : t.fixed = true
  quadrant : t.quadrant = s.quadrant
  taken : ∃ n, t.taken = s.taken ++ List.replicate n s.quadrant

variable {t : Gps k τ}

/-- Under the lock: with `fixed` set no thread is about to move. -/
theorem FrozenSince.locked (h : FrozenSince s t) {u : τ} {place : Section}
    (hlock : t.gpsLock = some (u, place)) {random : UInt32} {t' : Gps k τ}
    (hstep : t.locked u random place = some t') : FrozenSince s t' := by
  have hsound := h.sound.locked hlock hstep
  obtain ⟨n, htaken⟩ := h.taken
  cases place with
  | checking =>
    rw [Gps.locked, if_pos h.fixed] at hstep
    obtain rfl := Option.some.inj hstep
    exact ⟨hsound, h.fixed, h.quadrant, h.taken⟩
  | moving =>
    have hfree := (h.sound.place_of_lock hlock).1
    rw [h.fixed] at hfree
    contradiction
  | stamping =>
    have hfree := (h.sound.place_of_lock hlock).1
    rw [h.fixed] at hfree
    contradiction
  | reading =>
    obtain rfl := Option.some.inj hstep
    refine ⟨hsound, h.fixed, h.quadrant, n + 1, ?_⟩
    simp only [goTo, htaken, h.quadrant, List.append_assoc, List.replicate_succ']
  | fixing =>
    obtain rfl := Option.some.inj hstep
    exact ⟨hsound, rfl, h.quadrant, h.taken⟩

/-- A step is one under the lock, or leaves the quadrant, `fixed` and what was taken alone. -/
theorem quiet_or_locked {action : GpsAction τ} {s' : Gps k τ} (hstep : s.step action = some s') :
    (s'.fixed = s.fixed ∧ s'.quadrant = s.quadrant ∧ s'.taken = s.taken) ∨
      ∃ u random place, s.gpsLock = some (u, place) ∧ s.locked u random place = some s' := by
  cases action with
  | elapse d =>
    obtain rfl := Option.some.inj hstep
    exact Or.inl ⟨rfl, rfl, rfl⟩
  | ioctl u cmd =>
    simp only [Gps.step] at hstep
    split at hstep
    · split at hstep
      · obtain rfl := Option.some.inj hstep
        exact Or.inl ⟨rfl, rfl, rfl⟩
      · obtain rfl := Option.some.inj hstep
        exact Or.inl ⟨rfl, rfl, rfl⟩
    · contradiction
  | proceed u random =>
    simp only [Gps.step, Gps.proceed] at hstep
    split at hstep
    · split_ifs at hstep
      obtain rfl := Option.some.inj hstep
      exact Or.inl ⟨rfl, rfl, rfl⟩
    · split at hstep
      · next holder place hlock =>
        split_ifs at hstep with hholder
        subst hholder
        exact Or.inr ⟨holder, random, place, hlock, hstep⟩
      · contradiction
    · obtain rfl := Option.some.inj hstep
      exact Or.inl ⟨rfl, rfl, rfl⟩
    · contradiction
    · contradiction
  | copyToUser u ok =>
    simp only [Gps.step] at hstep
    split at hstep
    · split_ifs at hstep
      · obtain rfl := Option.some.inj hstep
        exact Or.inl ⟨rfl, rfl, rfl⟩
      · obtain rfl := Option.some.inj hstep
        exact Or.inl ⟨rfl, rfl, rfl⟩
    · contradiction

theorem FrozenSince.step (h : FrozenSince s t) {action : GpsAction τ} {t' : Gps k τ}
    (hstep : t.step action = some t') : FrozenSince s t' := by
  rcases quiet_or_locked hstep with ⟨hfixed, hquadrant, htaken⟩ | ⟨u, random, place, hlock, hlocked⟩
  · refine ⟨h.sound.step hstep, hfixed.trans h.fixed, hquadrant.trans h.quadrant, ?_⟩
    rw [htaken]
    exact h.taken
  · exact h.locked hlock hlocked

/-! ### The walk -/

/-- A lawful walk, in the order in which the quadrants are taken: it stays on the grid, goes to the
side only, and keeps its pace; what is reported was taken, so two quadrants taken one after the
other are next to each other where they are reported. -/
structure LawfulWalk (s : Gps k τ) : Prop where
  inGrid : InGrid s.quadrant
  walk : s.taken.IsChain NextTo
  spaced : s.moves.Pairwise fun m n ↦ m + k.moveInterval ≤ n
  reports : ∀ r ∈ s.reported, s.taken[r.index]? = some r.value
  successive : ∀ r ∈ s.reported, ∀ r' ∈ s.reported, r'.index = r.index + 1 →
    NextTo r.value r'.value

omit [DecidableEq τ] in
theorem Sound.lawfulWalk (h : s.Sound) : s.LawfulWalk where
  inGrid := h.inGrid
  walk := h.walk
  spaced := h.spaced
  reports := h.reports
  successive := by
    intro r hr r' hr' hnext
    obtain ⟨hindex, hvalue⟩ := List.getElem?_eq_some_iff.mp (h.reports r hr)
    obtain ⟨hindex', hvalue'⟩ := List.getElem?_eq_some_iff.mp (h.reports r' hr')
    rw [← hvalue, ← hvalue']
    simp only [hnext] at hindex' ⊢
    exact List.isChain_iff_getElem.mp h.walk r.index hindex'

/-- The walk of the vehicle, in the order in which quadrants are taken under the lock. Of every run,
for every width of the counter and frequency, any value of the parameter and of the counter at the
start, and any number of threads: the quadrants are taken in a lawful walk. From any state in which
the quadrant is frozen, it stays, and is what every thread takes. -/
theorem walk_is_lawful (now : ℕ) (initialQuadrant : ℤ) (random : UInt32)
    (hrun : Reaches step Unguarded (gpsInit k τ now initialQuadrant random) s) :
    s.LawfulWalk ∧ (s.fixed = true → ∀ t, Reaches step Unguarded s t →
      t.quadrant = s.quadrant ∧ ∃ n, t.taken = s.taken ++ List.replicate n s.quadrant) := by
  have hsound : s.Sound := hrun.invariant (fun _ _ _ h _ hstep ↦ h.step hstep)
    (sound_gpsInit now initialQuadrant random)
  refine ⟨hsound.lawfulWalk, fun hfixed t hlater ↦ ?_⟩
  have hfrozen : FrozenSince s t := hlater.invariant (fun _ _ _ h _ hstep ↦ h.step hstep)
    ⟨hsound, hfixed, rfl, 0, by simp⟩
  exact ⟨hfrozen.quadrant, hfrozen.taken⟩

end Steps

/-! ### Runs -/

/-- A kernel with the usual frequency. -/
def usualConfig : Config := ⟨64, 250, by decide, by decide⟩

section Actions

variable {τ : Type*}

/-- A thread calls `gps_ioctl` and makes some steps. -/
def callActions (t : τ) (cmd random : UInt32) (steps : ℕ) : List (GpsAction τ) :=
  GpsAction.ioctl t cmd :: List.replicate steps (GpsAction.proceed t random)

/-- It takes the quadrant within the interval. -/
def takeActions (t : τ) : List (GpsAction τ) := callActions t gpsIocGetQuadrant 0 3

/-- It takes the quadrant after the interval. -/
def moveActions (t : τ) (random : UInt32) : List (GpsAction τ) :=
  GpsAction.elapse 750 :: callActions t gpsIocGetQuadrant random 5

end Actions

/-- A vehicle moves twice while `jiffies` wraps, and is frozen. -/
def wrappingActions : List (GpsAction Unit) :=
  moveActions () 0 ++ [GpsAction.copyToUser () true] ++ moveActions () 1 ++
    [GpsAction.copyToUser () true] ++ callActions () gpsIocSetFixed 0 3

/-- `walk_is_lawful` at that run, and at a later state in which the quadrant is asked for again. -/
theorem walk_is_lawful_wrapping : ∃ s t : Gps usualConfig Unit,
    s.moves = [2 ^ 64 + 49, 2 ^ 64 + 799] ∧ s.taken = [1, 3] ∧ s.LawfulWalk ∧
      t.taken = [1, 3, 3] ∧ t.quadrant = s.quadrant := by
  have hstart : (run step Unguarded (gpsInit usualConfig Unit (2 ^ 64 - 701) 0 0)
      wrappingActions).map (fun s ↦ (s.fixed, s.moves, s.taken)) =
      some (true, [2 ^ 64 + 49, 2 ^ 64 + 799], [1, 3]) := by decide +kernel
  have hlater : (run step Unguarded (gpsInit usualConfig Unit (2 ^ 64 - 701) 0 0)
      wrappingActions).bind (fun s ↦ (run step Unguarded s
        (GpsAction.elapse 750 :: takeActions ())).map Gps.taken) = some [1, 3, 3] := by
    decide +kernel
  obtain ⟨s, hs, hvalues⟩ := Option.map_eq_some_iff.mp hstart
  simp only [Prod.mk.injEq] at hvalues
  obtain ⟨hfixed, hmoves, htaken⟩ := hvalues
  rw [hs, Option.bind_some] at hlater
  obtain ⟨t, ht, htake⟩ := Option.map_eq_some_iff.mp hlater
  have hlawful := walk_is_lawful (2 ^ 64 - 701) 0 0 (reaches_of_run wrappingActions hs)
  exact ⟨s, t, hmoves, htaken, hlawful.1, htake,
    (hlawful.2 hfixed t (reaches_of_run _ ht)).1⟩

/-- A caller takes the quadrant, passes a bad address after a move, and takes it after another. -/
def badAddressActions : List (GpsAction Unit) :=
  takeActions () ++ [GpsAction.copyToUser () true] ++ moveActions () 0 ++
    [GpsAction.copyToUser () false] ++ moveActions () 1 ++ [GpsAction.copyToUser () true]

/-- The first of two callers has taken the quadrant and is delayed before `copy_to_user`; the other
takes it after each of two moves, and freezes it. -/
def delayedActions : List (GpsAction Bool) :=
  takeActions false ++ moveActions true 0 ++ [GpsAction.copyToUser true true] ++
    moveActions true 1 ++ [GpsAction.copyToUser true true] ++ callActions true gpsIocSetFixed 0 3

/-- What is reported is not a lawful walk. A call that fails with a bad address may have moved the
quadrant, and the next report is at the diagonal of the last one. A report may also be late: it
comes after later ones, and after the quadrant was frozen as another one. -/
theorem diagonal_reported :
    (∃ s : Gps usualConfig Unit, Reaches step Unguarded (gpsInit usualConfig Unit 0 0 0) s ∧
      s.reported.map Report.value = [0, 3] ∧ ¬ NextTo 0 3) ∧
    ∃ s t : Gps usualConfig Bool, Reaches step Unguarded (gpsInit usualConfig Bool 0 0 0) s ∧
      s.fixed = true ∧ s.reported.map Report.value = [1, 3] ∧ Reaches step Unguarded s t ∧
        t.reported.map Report.value = [1, 3, 3, 0] := by
  have hbad : (run step Unguarded (gpsInit usualConfig Unit 0 0 0) badAddressActions).map
      (fun s ↦ s.reported.map Report.value) = some [0, 3] := by decide +kernel
  have hstart : (run step Unguarded (gpsInit usualConfig Bool 0 0 0) delayedActions).map
      (fun s ↦ (s.fixed, s.reported.map Report.value)) = some (true, [1, 3]) := by decide +kernel
  have hlater : (run step Unguarded (gpsInit usualConfig Bool 0 0 0) delayedActions).bind
      (fun s ↦ (run step Unguarded s (takeActions true ++
        [GpsAction.copyToUser true true, GpsAction.copyToUser false true])).map
          fun t ↦ t.reported.map Report.value) = some [1, 3, 3, 0] := by decide +kernel
  constructor
  · obtain ⟨s, hs, hvalues⟩ := Option.map_eq_some_iff.mp hbad
    exact ⟨s, reaches_of_run badAddressActions hs, hvalues, by decide⟩
  · obtain ⟨s, hs, hvalues⟩ := Option.map_eq_some_iff.mp hstart
    obtain ⟨hfixed, hreported⟩ := Prod.mk.inj hvalues
    rw [hs, Option.bind_some] at hlater
    obtain ⟨t, ht, hlate⟩ := Option.map_eq_some_iff.mp hlater
    exact ⟨s, t, reaches_of_run delayedActions hs, hfixed, hreported, reaches_of_run _ ht, hlate⟩

end Gps

end VehicleComm.Kernel
