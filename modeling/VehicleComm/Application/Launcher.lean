import VehicleComm.Library.Exhaustion
import VehicleComm.Library.ThreadFamily
import VehicleComm.SharedMemory.Engine

/-!
# The life of a vehicle's processes

`Vehicle::run_gateway_process` with what it calls: `SharedMemoryEngine::create` and `destroy`, the
forks of the components, `cleanup_children`, the waits, and the calls of `Gateway::run` and `stop`.
The launcher is one process; every system call it makes is a step, which may fail wherever the code
has a branch for it. The components run on their own and end when they like, or by the `SIGTERM` of
`cleanup_children`. Identifiers of System V objects are chosen by the host.

Whichever system call of `create` or fork fails and however the components interleave, the region
and the semaphores are there as long as a process uses them, every process finds its own entry in
the table, and when the launcher exits nothing is left on the host: no object, no component and no
zombie (`leaves_nothing`). The launcher is held up only by `Gateway::run`, by `Gateway::stop`, and
by a component that it did not have to kill (`launcher_ends`).

`Gateway::run` and `stop` return, or they hold the launcher up: nothing catches what the
constructors in `Gateway::run` may throw, so the launcher would end there as it is, with its objects
and its components left behind. The values of the semaphores are those with which the set starts;
what the processes make of them is in the model of the ring.

Left out: messages on the standard output and the priorities of the threads.
-/

set_option autoImplicit false
set_option relaxedAutoImplicit false

namespace VehicleComm.Application

open Library SharedMemory

/-- `SHM::MAGIC`. -/
def magic : UInt32 := 0x534F3232

/-- `SEM_RING_MUTEX`. -/
def semRingMutex : ℕ := 0

/-- `SEM_RING_EMPTY`. -/
def semRingEmpty : ℕ := 1

/-- `SEM_PENDING_BASE`. -/
def semPendingBase : ℕ := 2

/-- `semaphore_count`. -/
def semaphoreCount (registeredSlots : ℕ) : ℕ := semPendingBase + registeredSlots

/-- `pending_sem_index`. -/
def pendingSemIndex (slot : UInt16) : ℕ := semPendingBase + slot.toNat

/-- The fields of `SHM::Component_Entry` that `create` writes and no function of the ring reads. -/
structure TableEntry where
  port : UInt16
  slot : UInt16
deriving DecidableEq

/-- What `create` leaves in the head of the region. -/
structure RegionHead where
  magic : UInt32
  componentCount : UInt16
  components : Fin maxComponents → TableEntry

/-- After the `memset`, and of a new segment. -/
def RegionHead.zero : RegionHead := ⟨0, 0, fun _ ↦ ⟨0, 0⟩⟩

/-- `SharedMemoryEngine::Configuration`, without the context, which is the same for all processes of
a vehicle. -/
structure Configuration where
  slot : UInt16
  port : UInt16
deriving DecidableEq

variable {n : ℕ}

/-- The assignments of `create` to the head of a zeroed region, for `n` components. -/
def RegionHead.fill (ports : Fin n → UInt16) : RegionHead where
  magic := Application.magic
  componentCount := UInt16.ofNat (n + 1)
  components i :=
    if h : 1 ≤ i.val ∧ i.val < n + 1 then
      ⟨ports ⟨i.val - 1, by omega⟩, UInt16.ofNat i.val⟩
    else ⟨0, 0⟩

/-- The array that `create` passes to `SETALL`. -/
def semaphoreValues : List UInt16 :=
  ((List.replicate (semPendingBase + maxComponents) 0).set semRingMutex 1).set semRingEmpty
    (UInt16.ofNat slotCount)

/-- What `SETALL` reads of the array: as many values as the set has semaphores. -/
def initialSemaphores (n : ℕ) : List UInt16 := semaphoreValues.take (semaphoreCount (n + 1))

/-- The configuration in `run_component_process`. -/
def componentConfiguration (ports : Fin n → UInt16) (index : Fin n) : Configuration :=
  ⟨UInt16.ofNat (index.val + 1), ports index⟩

/-- The configuration in `Gateway::run`. -/
def gatewayConfiguration : Configuration := ⟨0, 0⟩

/-- A component: not forked yet, running, with a `SIGTERM` pending, a zombie, waited for. The last
two say whether it exited with status zero. -/
inductive ComponentPhase
  | unborn
  | running
  | doomed
  | ended (success : Bool)
  | reaped (success : Bool)
deriving DecidableEq

def ComponentPhase.pending : ComponentPhase → Bool
  | .running | .doomed | .ended _ => true
  | .unborn | .reaped _ => false

/-- Where the launcher is: in `create`, from the test of its arguments to `SETALL` or in the
removals after a failure; at the fork of component `i`; in the two loops of `cleanup_children`, with
the rest of `pids`; in `Gateway::run`; in the loop of the waits; in `Gateway::stop`; in `destroy`;
past its exit. -/
inductive LauncherPhase (n : ℕ)
  | checking
  | getSegment
  | getSet
  | attach
  | fill
  | detach
  | setAll
  | rollbackSet
  | rollbackSegment
  | spawning (i : ℕ)
  | killing (rest : List (Fin n))
  | collecting (rest : List (Fin n))
  | starting
  | waiting (rest : List (Fin n))
  | stopping
  | destroySet
  | destroySegment
  | exited (code : ℕ)
deriving DecidableEq

/-- The System V objects of the host, and those of the launcher: their identifiers, the head of the
region, and the values that the launcher gave the semaphores. -/
structure Ipc where
  segments : Finset ℕ
  sets : Finset ℕ
  shmid : ℕ
  semid : ℕ
  head : RegionHead
  startValues : List UInt16

/-- The launcher and its components. `ran` is a record of the return of `Gateway::run`. -/
structure Launch (n : ℕ) where
  phase : LauncherPhase n
  ipc : Ipc
  pids : List (Fin n)
  spawnFailed : Bool
  failed : Bool
  components : Fin n → ComponentPhase
  ran : Bool

def Launch.initial (segments sets : Finset ℕ) : Launch n where
  phase := .checking
  ipc := ⟨segments, sets, 0, 0, .zero, []⟩
  pids := []
  spawnFailed := false
  failed := false
  components := fun _ ↦ .unborn
  ran := false

/-- What may happen: the launcher makes its next step, where a system call that may fail returns a
result or none; `Gateway::run` or `stop` returns; a component exits; a `SIGTERM` ends it. -/
inductive LaunchAction (n : ℕ)
  | launcher (result : Option ℕ)
  | gateway
  | exit (i : Fin n) (success : Bool)
  | terminate (i : Fin n)
deriving DecidableEq

/-! ### The functions -/

namespace Ipc

/-- `shmget` gives the launcher a segment, filled with zeros. -/
def getSegment (ipc : Ipc) (id : ℕ) : Option Ipc :=
  if id ∈ ipc.segments then none
  else some { ipc with segments := insert id ipc.segments, shmid := id, head := .zero }

/-- `semget` gives the launcher a set of semaphores at zero. -/
def getSet (ipc : Ipc) (count id : ℕ) : Option Ipc :=
  if id ∈ ipc.sets then none
  else
    some { ipc with
      sets := insert id ipc.sets
      semid := id
      startValues := List.replicate count 0 }

/-- `semctl(semid, 0, IPC_RMID)`. -/
def removeSet (ipc : Ipc) : Ipc := { ipc with sets := ipc.sets.erase ipc.semid }

/-- `shmctl(shmid, IPC_RMID, nullptr)`. -/
def removeSegment (ipc : Ipc) : Ipc := { ipc with segments := ipc.segments.erase ipc.shmid }

end Ipc

namespace Launch

/-- The exit status of the launcher after `destroy`. -/
def code (s : Launch n) : ℕ := if s.spawnFailed || s.failed then 1 else 0

/-- `kill(pid, SIGTERM)`. -/
def kill : ComponentPhase → ComponentPhase
  | .running => .doomed
  | other => other

def launcherStep (ports : Fin n → UInt16) (s : Launch n) (result : Option ℕ) : Option (Launch n) :=
  match s.phase with
  | .checking => some { s with phase := if maxComponents ≤ n then .exited 1 else .getSegment }
  | .getSegment =>
    match result with
    | none => some { s with phase := .exited 1 }
    | some id => (s.ipc.getSegment id).map fun ipc ↦ { s with ipc := ipc, phase := .getSet }
  | .getSet =>
    match result with
    | none => some { s with phase := .rollbackSegment }
    | some id =>
      (s.ipc.getSet (semaphoreCount (n + 1)) id).map fun ipc ↦
        { s with ipc := ipc, phase := .attach }
  | .attach => some { s with phase := if result = none then .rollbackSet else .fill }
  | .fill => some { s with ipc := { s.ipc with head := .fill ports }, phase := .detach }
  | .detach => some { s with phase := .setAll }
  | .setAll =>
    match result with
    | none => some { s with phase := .rollbackSet }
    | some _ =>
      some { s with ipc := { s.ipc with startValues := initialSemaphores n }, phase := .spawning 0 }
  | .rollbackSet => some { s with ipc := s.ipc.removeSet, phase := .rollbackSegment }
  | .rollbackSegment => some { s with ipc := s.ipc.removeSegment, phase := .exited 1 }
  | .spawning i =>
    if hi : i < n then
      match result with
      | none => some { s with spawnFailed := true, phase := .killing s.pids }
      | some _ =>
        some { s with
          components := Function.update s.components ⟨i, hi⟩ .running
          pids := s.pids ++ [⟨i, hi⟩]
          phase := .spawning (i + 1) }
    else some { s with phase := .starting }
  | .killing [] => some { s with phase := .collecting s.pids }
  | .killing (i :: rest) =>
    some { s with
      components := Function.update s.components i (kill (s.components i))
      phase := .killing rest }
  | .collecting [] => some { s with phase := .destroySet }
  | .collecting (i :: rest) =>
    match s.components i with
    | .ended success =>
      some { s with
        components := Function.update s.components i (.reaped success)
        phase := .collecting rest }
    | _ => none
  | .waiting [] => some { s with phase := .stopping }
  | .waiting (i :: rest) =>
    match s.components i with
    | .ended success =>
      some { s with
        components := Function.update s.components i (.reaped success)
        failed := s.failed || !success
        phase := .waiting rest }
    | _ => none
  | .destroySet => some { s with ipc := s.ipc.removeSet, phase := .destroySegment }
  | .destroySegment => some { s with ipc := s.ipc.removeSegment, phase := .exited s.code }
  | .starting | .stopping | .exited _ => none

/-- `Gateway::run` or `stop` returns. -/
def gatewayStep (s : Launch n) : Option (Launch n) :=
  match s.phase with
  | .starting => some { s with ran := true, phase := .waiting s.pids }
  | .stopping => some { s with phase := .destroySet }
  | _ => none

/-- A component exits, whether or not a `SIGTERM` is pending. -/
def exitStep (s : Launch n) (i : Fin n) (success : Bool) : Option (Launch n) :=
  if s.components i = .running ∨ s.components i = .doomed then
    some { s with components := Function.update s.components i (.ended success) }
  else none

/-- The `SIGTERM` ends a component. -/
def terminateStep (s : Launch n) (i : Fin n) : Option (Launch n) :=
  if s.components i = .doomed then
    some { s with components := Function.update s.components i (.ended false) }
  else none

def step (ports : Fin n → UInt16) (s : Launch n) : LaunchAction n → Option (Launch n)
  | .launcher result => s.launcherStep ports result
  | .gateway => s.gatewayStep
  | .exit i success => s.exitStep i success
  | .terminate i => s.terminateStep i

/-! ### The objects on the host -/

/-- In `create`. -/
def creating : LauncherPhase n → Bool
  | .checking | .getSegment | .getSet | .attach | .fill | .detach | .setAll | .rollbackSet
  | .rollbackSegment => true
  | _ => false

def ownsSegment : LauncherPhase n → Bool
  | .checking | .getSegment | .exited _ => false
  | _ => true

def ownsSet : LauncherPhase n → Bool
  | .checking | .getSegment | .getSet | .rollbackSegment | .destroySegment | .exited _ => false
  | _ => true

/-- `create` has written the region. -/
def filled : LauncherPhase n → Bool
  | .checking | .getSegment | .getSet | .attach | .fill | .rollbackSet | .rollbackSegment
  | .destroySegment | .exited _ => false
  | _ => true

/-- `create` has returned a context, and `destroy` has removed nothing. -/
def ready : LauncherPhase n → Bool
  | .detach | .setAll => false
  | phase => filled phase

/-- The number of components was found small enough, and the launcher is still there. -/
def checked : LauncherPhase n → Bool
  | .checking | .exited _ => false
  | _ => true

/-- A set of identifiers is the one the host had, with that of an object of the launcher in addition
when there is one. -/
def Holds (owns : Bool) (id : ℕ) (before now : Finset ℕ) : Prop :=
  if owns then id ∉ before ∧ now = insert id before else now = before

theorem holds_insert {id fresh : ℕ} {before now : Finset ℕ} (hold : Holds false id before now)
    (hfresh : fresh ∉ now) : Holds true fresh before (insert fresh now) := by
  obtain rfl : now = before := hold
  exact ⟨hfresh, rfl⟩

theorem holds_erase {id : ℕ} {before now : Finset ℕ} (hold : Holds true id before now) :
    Holds false id before (now.erase id) := by
  obtain ⟨hfresh, rfl⟩ : id ∉ before ∧ now = insert id before := hold
  exact Finset.erase_insert hfresh

structure Objects (ports : Fin n → UInt16) (segments sets : Finset ℕ) (phase : LauncherPhase n)
    (ipc : Ipc) : Prop where
  segments : Holds (ownsSegment phase) ipc.shmid segments ipc.segments
  sets : Holds (ownsSet phase) ipc.semid sets ipc.sets
  few : checked phase = true → n < maxComponents
  head : filled phase = true → ipc.head = .fill ports
  semaphores : ready phase = true → ipc.startValues = initialSemaphores n

section Objects

variable {ports : Fin n → UInt16} {segments sets : Finset ℕ}

/-- Between two phases with the same objects. -/
theorem Objects.move {phase phase' : LauncherPhase n} {ipc : Ipc}
    (h : Objects ports segments sets phase ipc) (hsegment : ownsSegment phase' = ownsSegment phase)
    (hset : ownsSet phase' = ownsSet phase)
    (hchecked : checked phase' = true → checked phase = true)
    (hfilled : filled phase' = true → filled phase = true)
    (hready : ready phase' = true → ready phase = true) :
    Objects ports segments sets phase' ipc where
  segments := hsegment ▸ h.segments
  sets := hset ▸ h.sets
  few := fun hphase ↦ h.few (hchecked hphase)
  head := fun hphase ↦ h.head (hfilled hphase)
  semaphores := fun hphase ↦ h.semaphores (hready hphase)

/-- A step of `create`. -/
theorem Objects.creates {s t : Launch n} (h : Objects ports segments sets s.phase s.ipc)
    (hcreating : creating s.phase = true) {result : Option ℕ}
    (hstep : s.launcherStep ports result = some t) :
    Objects ports segments sets t.phase t.ipc := by
  cases hphase : s.phase with
  | checking =>
    rw [hphase] at h
    simp only [launcherStep, hphase] at hstep
    obtain rfl := Option.some.inj hstep
    by_cases hmany : maxComponents ≤ n
    · simp only [if_pos hmany]
      exact h.move rfl rfl id id id
    · simp only [if_neg hmany]
      exact ⟨h.segments, h.sets, fun _ ↦ not_le.mp hmany, nofun, nofun⟩
  | getSegment =>
    rw [hphase] at h
    simp only [launcherStep, hphase] at hstep
    cases result with
    | none =>
      obtain rfl := Option.some.inj hstep
      exact h.move rfl rfl nofun id id
    | some id =>
      obtain ⟨ipc, hipc, rfl⟩ := Option.map_eq_some_iff.mp hstep
      unfold Ipc.getSegment at hipc
      split_ifs at hipc with hused
      obtain rfl := Option.some.inj hipc
      exact ⟨holds_insert h.segments hused, h.sets, h.few, nofun, nofun⟩
  | getSet =>
    rw [hphase] at h
    simp only [launcherStep, hphase] at hstep
    cases result with
    | none =>
      obtain rfl := Option.some.inj hstep
      exact h.move rfl rfl id id id
    | some id =>
      obtain ⟨ipc, hipc, rfl⟩ := Option.map_eq_some_iff.mp hstep
      unfold Ipc.getSet at hipc
      split_ifs at hipc with hused
      obtain rfl := Option.some.inj hipc
      exact ⟨h.segments, holds_insert h.sets hused, h.few, nofun, nofun⟩
  | attach =>
    rw [hphase] at h
    simp only [launcherStep, hphase] at hstep
    obtain rfl := Option.some.inj hstep
    dsimp only
    split_ifs
    · exact h.move rfl rfl id id id
    · exact h.move rfl rfl id id id
  | fill =>
    rw [hphase] at h
    simp only [launcherStep, hphase] at hstep
    obtain rfl := Option.some.inj hstep
    exact ⟨h.segments, h.sets, h.few, fun _ ↦ rfl, nofun⟩
  | detach =>
    rw [hphase] at h
    simp only [launcherStep, hphase] at hstep
    obtain rfl := Option.some.inj hstep
    exact h.move rfl rfl id id id
  | setAll =>
    rw [hphase] at h
    simp only [launcherStep, hphase] at hstep
    cases result with
    | none =>
      obtain rfl := Option.some.inj hstep
      exact h.move rfl rfl id nofun nofun
    | some id =>
      obtain rfl := Option.some.inj hstep
      exact ⟨h.segments, h.sets, h.few, h.head, fun _ ↦ rfl⟩
  | rollbackSet =>
    rw [hphase] at h
    simp only [launcherStep, hphase] at hstep
    obtain rfl := Option.some.inj hstep
    exact ⟨h.segments, holds_erase h.sets, h.few, nofun, nofun⟩
  | rollbackSegment =>
    rw [hphase] at h
    simp only [launcherStep, hphase] at hstep
    obtain rfl := Option.some.inj hstep
    exact ⟨holds_erase h.segments, h.sets, nofun, nofun, nofun⟩
  | spawning i | killing rest | collecting rest | starting | waiting rest | stopping | destroySet
  | destroySegment | exited code => rw [hphase] at hcreating; cases hcreating

/-- The next step of the launcher. Between `create` and `destroy` the objects stay what they are. -/
theorem Objects.launcher {s t : Launch n} (h : Objects ports segments sets s.phase s.ipc)
    {result : Option ℕ} (hstep : s.launcherStep ports result = some t) :
    Objects ports segments sets t.phase t.ipc := by
  cases hphase : s.phase with
  | spawning i =>
    rw [hphase] at h
    simp only [launcherStep, hphase] at hstep
    split_ifs at hstep
    · cases result with
      | none =>
        obtain rfl := Option.some.inj hstep
        exact h.move rfl rfl id id id
      | some pid =>
        obtain rfl := Option.some.inj hstep
        exact h.move rfl rfl id id id
    · obtain rfl := Option.some.inj hstep
      exact h.move rfl rfl id id id
  | killing rest =>
    rw [hphase] at h
    cases rest with
    | nil =>
      simp only [launcherStep, hphase] at hstep
      obtain rfl := Option.some.inj hstep
      exact h.move rfl rfl id id id
    | cons i rest =>
      simp only [launcherStep, hphase] at hstep
      obtain rfl := Option.some.inj hstep
      exact h.move rfl rfl id id id
  | collecting rest | waiting rest =>
    rw [hphase] at h
    cases rest with
    | nil =>
      simp only [launcherStep, hphase] at hstep
      obtain rfl := Option.some.inj hstep
      exact h.move rfl rfl id id id
    | cons i rest =>
      simp only [launcherStep, hphase] at hstep
      split at hstep
      · obtain rfl := Option.some.inj hstep
        exact h.move rfl rfl id id id
      · cases hstep
  | destroySet =>
    rw [hphase] at h
    simp only [launcherStep, hphase] at hstep
    obtain rfl := Option.some.inj hstep
    exact ⟨h.segments, holds_erase h.sets, h.few, nofun, nofun⟩
  | destroySegment =>
    rw [hphase] at h
    simp only [launcherStep, hphase] at hstep
    obtain rfl := Option.some.inj hstep
    exact ⟨holds_erase h.segments, h.sets, nofun, nofun, nofun⟩
  | starting | stopping | exited code => simp only [launcherStep, hphase, reduceCtorEq] at hstep
  | _ => exact h.creates (by rw [hphase]; rfl) hstep

end Objects

/-! ### The components and their processes -/

/-- The part of `pids` that was not waited for. -/
def toReap (pids : List (Fin n)) : LauncherPhase n → List (Fin n)
  | .collecting rest | .waiting rest => rest
  | .stopping | .destroySet | .destroySegment | .exited _ => []
  | _ => pids

/-- Every component that was forked and not waited for has a process, and no other one has. -/
structure Herd (pids left : List (Fin n)) (components : Fin n → ComponentPhase) : Prop where
  nodup : pids.Nodup
  suffix : left <:+ pids
  unborn : ∀ j, j ∉ pids → components j = .unborn
  pending : ∀ j, j ∈ left → (components j).pending = true
  reaped : ∀ j, j ∈ pids → j ∉ left → ∃ success, components j = .reaped success

section Herd

variable {pids left : List (Fin n)} {components : Fin n → ComponentPhase}

theorem Herd.mem_left (h : Herd pids left components) {j : Fin n}
    (hpending : (components j).pending = true) : j ∈ left := by
  by_contra hj
  by_cases hpids : j ∈ pids
  · obtain ⟨success, hreaped⟩ := h.reaped j hpids hj
    rw [hreaped] at hpending
    cases hpending
  · rw [h.unborn j hpids] at hpending
    cases hpending

/-- A fork. -/
theorem Herd.spawn (h : Herd pids pids components) {i : Fin n} (hi : i ∉ pids) :
    Herd (pids ++ [i]) (pids ++ [i]) (Function.update components i .running) where
  nodup := List.nodup_append.mpr ⟨h.nodup, List.nodup_singleton i, fun j hj k hk hjk ↦
    hi (List.mem_singleton.mp hk ▸ hjk ▸ hj)⟩
  suffix := List.suffix_refl _
  unborn j hj := by
    rw [List.mem_append, List.mem_singleton, not_or] at hj
    rw [Function.update_of_ne hj.2]
    exact h.unborn j hj.1
  pending j hj := by
    by_cases hsame : j = i
    · rw [hsame, Function.update_self]
      rfl
    · rw [Function.update_of_ne hsame]
      exact h.pending j ((List.mem_append.mp hj).resolve_right
        fun hlast ↦ hsame (List.mem_singleton.mp hlast))
  reaped j hj hleft := absurd hj hleft

/-- A process is killed or ends. -/
theorem Herd.change (h : Herd pids left components) {i : Fin n} {x : ComponentPhase}
    (hpending : (components i).pending = true) (hx : x.pending = true) :
    Herd pids left (Function.update components i x) where
  nodup := h.nodup
  suffix := h.suffix
  unborn j hj := by
    have hleft := h.mem_left hpending
    have hne : j ≠ i := fun hsame ↦ hj (hsame ▸ h.suffix.subset hleft)
    rw [Function.update_of_ne hne]
    exact h.unborn j hj
  pending j hj := by
    by_cases hsame : j = i
    · rw [hsame, Function.update_self]
      exact hx
    · rw [Function.update_of_ne hsame]
      exact h.pending j hj
  reaped j hj hleft := by
    have hne : j ≠ i := fun hsame ↦ hleft (hsame ▸ h.mem_left hpending)
    rw [Function.update_of_ne hne]
    exact h.reaped j hj hleft

/-- A wait for the first of the rest. -/
theorem Herd.reap {i : Fin n} {rest : List (Fin n)} (h : Herd pids (i :: rest) components)
    (success : Bool) : Herd pids rest (Function.update components i (.reaped success)) where
  nodup := h.nodup
  suffix := (List.suffix_cons i rest).trans h.suffix
  unborn j hj := by
    have hne : j ≠ i := fun hsame ↦ hj (hsame ▸ h.suffix.subset List.mem_cons_self)
    rw [Function.update_of_ne hne]
    exact h.unborn j hj
  pending j hj := by
    have hi : i ∉ rest := (List.nodup_cons.mp (h.nodup.sublist h.suffix.sublist)).1
    have hne : j ≠ i := fun hsame ↦ hi (hsame ▸ hj)
    rw [Function.update_of_ne hne]
    exact h.pending j (List.mem_cons_of_mem i hj)
  reaped j hj hrest := by
    by_cases hsame : j = i
    · exact ⟨success, by rw [hsame, Function.update_self]⟩
    · rw [Function.update_of_ne hsame]
      exact h.reaped j hj fun hleft ↦ (List.mem_cons.mp hleft).elim hsame hrest

end Herd

def Plain (s : Launch n) : Prop := s.spawnFailed = false ∧ s.failed = false ∧ s.ran = false

/-- All components were forked, `Gateway::run` has returned, and `failed` says whether a component
that was waited for failed. -/
def Served (s : Launch n) : Prop :=
  s.ran = true ∧ s.spawnFailed = false ∧ (∀ j, j ∈ s.pids) ∧
    (s.failed = true ↔ ∃ j, s.components j = .reaped false)

def Course (s : Launch n) : Prop :=
  match s.phase with
  | .spawning i => (∀ j, j ∈ s.pids ↔ j.val < i) ∧ s.Plain
  | .killing rest =>
    s.spawnFailed = true ∧ s.ran = false ∧ rest <:+ s.pids ∧
      ∀ j, j ∈ s.pids → j ∉ rest → s.components j ≠ .running
  | .collecting _ =>
    s.spawnFailed = true ∧ s.ran = false ∧ ∀ j, j ∈ s.pids → s.components j ≠ .running
  | .starting => (∀ j, j ∈ s.pids) ∧ s.Plain
  | .waiting _ | .stopping => s.Served
  | .destroySet | .destroySegment => (s.spawnFailed = true ∧ s.ran = false) ∨ s.Served
  | .exited code => (code = 1 ∧ s.ran = false) ∨ (s.Served ∧ code = s.code)
  | _ => s.pids = [] ∧ s.Plain

structure Sound (ports : Fin n → UInt16) (segments sets : Finset ℕ) (s : Launch n) : Prop where
  objects : Objects ports segments sets s.phase s.ipc
  herd : Herd s.pids (toReap s.pids s.phase) s.components
  course : s.Course

theorem sound_initial (ports : Fin n → UInt16) (segments sets : Finset ℕ) :
    (initial segments sets : Launch n).Sound ports segments sets where
  objects := ⟨rfl, rfl, nofun, nofun, nofun⟩
  herd := ⟨List.nodup_nil, List.suffix_refl _, fun _ _ ↦ rfl, nofun, nofun⟩
  course := ⟨rfl, rfl, rfl, rfl⟩

section Steps

variable {ports : Fin n → UInt16} {segments sets : Finset ℕ} {s t : Launch n}

/-- A process that ends is not one that was waited for. -/
theorem exists_reaped_update {components : Fin n → ComponentPhase} {i : Fin n} {x : ComponentPhase}
    (hpending : (components i).pending = true) (hx : x ≠ .reaped false) :
    (∃ j, Function.update components i x j = .reaped false) ↔
      ∃ j, components j = .reaped false := by
  constructor
  · rintro ⟨j, hj⟩
    by_cases hsame : j = i
    · rw [hsame, Function.update_self] at hj
      exact absurd hj hx
    · rw [Function.update_of_ne hsame] at hj
      exact ⟨j, hj⟩
  · rintro ⟨j, hj⟩
    have hsame : j ≠ i := fun hsame ↦ by
      rw [← hsame, hj] at hpending
      cases hpending
    exact ⟨j, by rw [Function.update_of_ne hsame, hj]⟩

theorem ne_running_update {components : Fin n → ComponentPhase} {i j : Fin n} {x : ComponentPhase}
    (hx : x ≠ .running) (hj : j ≠ i → components j ≠ .running) :
    Function.update components i x j ≠ .running := by
  by_cases hsame : j = i
  · rw [hsame, Function.update_self]
    exact hx
  · rw [Function.update_of_ne hsame]
    exact hj hsame

/-- A component that has a process ends. -/
theorem Served.ends (h : s.Served) {i : Fin n} (hpending : (s.components i).pending = true)
    (success : Bool) :
    ({ s with components := Function.update s.components i (.ended success) } : Launch n).Served :=
  ⟨h.1, h.2.1, h.2.2.1, h.2.2.2.trans (exists_reaped_update (x := .ended success) hpending
    nofun).symm⟩

theorem Course.ends (h : s.Course) {i : Fin n} (hpending : (s.components i).pending = true)
    (success : Bool) :
    ({ s with
        components := Function.update s.components i (.ended success) } : Launch n).Course := by
  unfold Course at h ⊢
  cases hphase : s.phase with
  | killing rest =>
    simp only [hphase] at h ⊢
    exact ⟨h.1, h.2.1, h.2.2.1, fun j hj hrest ↦ ne_running_update nofun fun _ ↦ h.2.2.2 j hj hrest⟩
  | collecting rest =>
    simp only [hphase] at h ⊢
    exact ⟨h.1, h.2.1, fun j hj ↦ ne_running_update nofun fun _ ↦ h.2.2 j hj⟩
  | waiting rest =>
    simp only [hphase] at h ⊢
    exact h.ends hpending success
  | stopping =>
    simp only [hphase] at h ⊢
    exact h.ends hpending success
  | destroySet =>
    simp only [hphase] at h ⊢
    exact h.imp_right fun hserved ↦ hserved.ends hpending success
  | destroySegment =>
    simp only [hphase] at h ⊢
    exact h.imp_right fun hserved ↦ hserved.ends hpending success
  | exited code =>
    simp only [hphase] at h ⊢
    exact h.imp_right fun hserved ↦ ⟨hserved.1.ends hpending success, hserved.2⟩
  | _ =>
    simp only [hphase] at h ⊢
    exact h

theorem Sound.ends (h : s.Sound ports segments sets) {i : Fin n}
    (hpending : (s.components i).pending = true) (success : Bool) :
    ({ s with components := Function.update s.components i (.ended success) } : Launch n).Sound
      ports segments sets :=
  ⟨h.objects, h.herd.change hpending rfl, h.course.ends hpending success⟩

/-- `Gateway::run` or `stop` returns. -/
theorem Sound.gateway (h : s.Sound ports segments sets) (hstep : s.gatewayStep = some t) :
    t.Sound ports segments sets := by
  obtain ⟨hobjects, hherd, hcourse⟩ := h
  unfold gatewayStep at hstep
  unfold Course at hcourse
  split at hstep
  case h_1 hphase =>
    obtain rfl := Option.some.inj hstep
    simp only [hphase] at hobjects hherd hcourse
    obtain ⟨hall, hspawn, hfailed, -⟩ := hcourse
    refine ⟨hobjects.move rfl rfl id id id, hherd, rfl, hspawn, hall, ?_⟩
    -- nobody was waited for
    simp only [hfailed, Bool.false_eq_true, false_iff, not_exists]
    intro j hj
    have hpending := hherd.pending j (hall j)
    rw [hj] at hpending
    cases hpending
  case h_2 hphase =>
    obtain rfl := Option.some.inj hstep
    simp only [hphase] at hobjects hherd hcourse
    exact ⟨hobjects.move rfl rfl id id id, hherd, Or.inr hcourse⟩
  case h_3 => cases hstep

/-- A wait finds a failure, or there was one. -/
theorem exists_reaped_reap {components : Fin n → ComponentPhase} {i : Fin n} {success : Bool}
    (hended : components i = .ended success) :
    (∃ j, Function.update components i (.reaped success) j = .reaped false) ↔
      (∃ j, components j = .reaped false) ∨ success = false := by
  constructor
  · rintro ⟨j, hj⟩
    by_cases hsame : j = i
    · rw [hsame, Function.update_self] at hj
      injection hj with hsuccess
      exact Or.inr hsuccess
    · rw [Function.update_of_ne hsame] at hj
      exact Or.inl ⟨j, hj⟩
  · rintro (⟨j, hj⟩ | hsuccess)
    · have hne : j ≠ i := fun hsame ↦ by
        rw [hsame, hended] at hj
        cases hj
      exact ⟨j, by rw [Function.update_of_ne hne, hj]⟩
    · exact ⟨i, by rw [Function.update_self, hsuccess]⟩

/-- In `create`, or out of it. -/
def Early : LauncherPhase n → Prop
  | .spawning i => i = 0
  | .exited code => code = 1
  | .killing _ | .collecting _ | .starting | .waiting _ | .stopping | .destroySet
  | .destroySegment => False
  | _ => True

/-- Nothing was forked yet. -/
theorem sound_of_early (hobjects : Objects ports segments sets t.phase t.ipc)
    (hunborn : ∀ j, t.components j = .unborn) (hpids : t.pids = []) (hplain : t.Plain)
    (hearly : Early t.phase) : t.Sound ports segments sets where
  objects := hobjects
  herd := by
    have hleft : toReap t.pids t.phase = [] := by
      rw [hpids]
      cases hphase : t.phase with
      | collecting rest | waiting rest => simp [hphase, Early] at hearly
      | _ => rfl
    rw [hleft, hpids]
    exact ⟨List.nodup_nil, List.suffix_refl _, fun j _ ↦ hunborn j, nofun, nofun⟩
  course := by
    unfold Course
    cases hphase : t.phase with
    | spawning i =>
      rw [hphase] at hearly
      refine ⟨fun j ↦ ?_, hplain⟩
      obtain rfl : i = 0 := hearly
      simp [hpids]
    | exited code =>
      rw [hphase] at hearly
      exact Or.inl ⟨hearly, hplain.2.2⟩
    | killing rest | collecting rest | starting | waiting rest | stopping | destroySet
    | destroySegment => simp [hphase, Early] at hearly
    | _ => exact ⟨hpids, hplain⟩

/-- A step of `create` changes what is on the host, and goes on in `create` or out of it. -/
theorem launcherStep_create (hcreating : creating s.phase = true) {result : Option ℕ}
    (hstep : s.launcherStep ports result = some t) :
    t = { s with ipc := t.ipc, phase := t.phase } ∧ Early t.phase := by
  cases hphase : s.phase with
  | checking =>
    simp only [launcherStep, hphase] at hstep
    obtain rfl := Option.some.inj hstep
    refine ⟨rfl, ?_⟩
    dsimp only
    split_ifs
    · rfl
    · trivial
  | getSegment =>
    simp only [launcherStep, hphase] at hstep
    cases result with
    | none =>
      obtain rfl := Option.some.inj hstep
      exact ⟨rfl, rfl⟩
    | some id =>
      obtain ⟨ipc, -, rfl⟩ := Option.map_eq_some_iff.mp hstep
      exact ⟨rfl, trivial⟩
  | getSet =>
    simp only [launcherStep, hphase] at hstep
    cases result with
    | none =>
      obtain rfl := Option.some.inj hstep
      exact ⟨rfl, trivial⟩
    | some id =>
      obtain ⟨ipc, -, rfl⟩ := Option.map_eq_some_iff.mp hstep
      exact ⟨rfl, trivial⟩
  | attach =>
    simp only [launcherStep, hphase] at hstep
    obtain rfl := Option.some.inj hstep
    refine ⟨rfl, ?_⟩
    dsimp only
    split_ifs
    · trivial
    · trivial
  | setAll =>
    simp only [launcherStep, hphase] at hstep
    cases result with
    | none =>
      obtain rfl := Option.some.inj hstep
      exact ⟨rfl, trivial⟩
    | some id =>
      obtain rfl := Option.some.inj hstep
      exact ⟨rfl, rfl⟩
  | fill | detach | rollbackSet =>
    simp only [launcherStep, hphase] at hstep
    obtain rfl := Option.some.inj hstep
    exact ⟨rfl, trivial⟩
  | rollbackSegment =>
    simp only [launcherStep, hphase] at hstep
    obtain rfl := Option.some.inj hstep
    exact ⟨rfl, rfl⟩
  | spawning i | killing rest | collecting rest | starting | waiting rest | stopping | destroySet
  | destroySegment | exited code => rw [hphase] at hcreating; cases hcreating

/-- In `create` nothing was forked. -/
theorem Sound.creates (h : s.Sound ports segments sets) (hcreating : creating s.phase = true)
    {result : Option ℕ} (hstep : s.launcherStep ports result = some t) :
    t.Sound ports segments sets := by
  have hcourse : s.pids = [] ∧ s.Plain := by
    have hcourse := h.course
    unfold Course at hcourse
    cases hphase : s.phase with
    | spawning i | killing rest | collecting rest | starting | waiting rest | stopping | destroySet
    | destroySegment | exited code => rw [hphase] at hcreating; cases hcreating
    | _ =>
      rw [hphase] at hcourse
      exact hcourse
  obtain ⟨hpids, hplain⟩ := hcourse
  obtain ⟨hsame, hearly⟩ := launcherStep_create hcreating hstep
  refine sound_of_early (h.objects.launcher hstep) ?_ ?_ ?_ hearly
  · rw [hsame]
    exact fun j ↦ h.herd.unborn j (by rw [hpids]; exact List.not_mem_nil)
  · rw [hsame]
    exact hpids
  · rw [hsame]
    exact hplain

/-- The loop of the forks. -/
theorem Sound.spawns (h : s.Sound ports segments sets) {i : ℕ} (hphase : s.phase = .spawning i)
    {result : Option ℕ} (hstep : s.launcherStep ports result = some t) :
    t.Sound ports segments sets := by
  have hobjects := h.objects.launcher hstep
  obtain ⟨-, hherd, hcourse⟩ := h
  simp only [Course, hphase] at hcourse hherd
  obtain ⟨hpids, hspawn, hfailed, hran⟩ := hcourse
  simp only [launcherStep, hphase] at hstep
  split_ifs at hstep with hi
  · cases result with
    | none =>
      obtain rfl := Option.some.inj hstep
      exact ⟨hobjects, hherd, rfl, hran, List.suffix_refl _, fun j hj hrest ↦ absurd hj hrest⟩
    | some pid =>
      obtain rfl := Option.some.inj hstep
      have hnew : (⟨i, hi⟩ : Fin n) ∉ s.pids := fun hmem ↦ lt_irrefl i ((hpids ⟨i, hi⟩).mp hmem)
      refine ⟨hobjects, hherd.spawn hnew, fun j ↦ ?_, hspawn, hfailed, hran⟩
      simp only [List.mem_append, List.mem_singleton, hpids, Fin.ext_iff]
      omega
  · obtain rfl := Option.some.inj hstep
    exact ⟨hobjects, hherd, fun j ↦ (hpids j).mpr (by omega), hspawn, hfailed, hran⟩

/-- The first loop of `cleanup_children`. -/
theorem Sound.kills (h : s.Sound ports segments sets) {rest : List (Fin n)}
    (hphase : s.phase = .killing rest) {result : Option ℕ}
    (hstep : s.launcherStep ports result = some t) : t.Sound ports segments sets := by
  have hobjects := h.objects.launcher hstep
  obtain ⟨-, hherd, hcourse⟩ := h
  simp only [Course, hphase] at hcourse hherd
  obtain ⟨hspawn, hran, hsuffix, hkilled⟩ := hcourse
  cases rest with
  | nil =>
    simp only [launcherStep, hphase] at hstep
    obtain rfl := Option.some.inj hstep
    exact ⟨hobjects, hherd, hspawn, hran, fun j hj ↦ hkilled j hj List.not_mem_nil⟩
  | cons i rest =>
    simp only [launcherStep, hphase] at hstep
    obtain rfl := Option.some.inj hstep
    have hi := hherd.pending i (hsuffix.subset List.mem_cons_self)
    have hkill : (kill (s.components i)).pending = true ∧ kill (s.components i) ≠ .running := by
      cases hcomponent : s.components i with
      | unborn | reaped success => rw [hcomponent] at hi; cases hi
      | _ => exact ⟨rfl, nofun⟩
    refine ⟨hobjects, hherd.change hi hkill.1, hspawn, hran,
      (List.suffix_cons i rest).trans hsuffix,
      fun j hj hrest ↦ ne_running_update hkill.2 fun hne ↦ ?_⟩
    exact hkilled j hj fun hcons ↦ (List.mem_cons.mp hcons).elim hne hrest

/-- The second loop of `cleanup_children`. -/
theorem Sound.collects (h : s.Sound ports segments sets) {rest : List (Fin n)}
    (hphase : s.phase = .collecting rest) {result : Option ℕ}
    (hstep : s.launcherStep ports result = some t) : t.Sound ports segments sets := by
  have hobjects := h.objects.launcher hstep
  obtain ⟨-, hherd, hcourse⟩ := h
  simp only [Course, hphase] at hcourse hherd
  obtain ⟨hspawn, hran, hkilled⟩ := hcourse
  cases rest with
  | nil =>
    simp only [launcherStep, hphase] at hstep
    obtain rfl := Option.some.inj hstep
    exact ⟨hobjects, hherd, Or.inl ⟨hspawn, hran⟩⟩
  | cons i rest =>
    simp only [launcherStep, hphase] at hstep
    split at hstep
    case h_1 success hended =>
      obtain rfl := Option.some.inj hstep
      exact ⟨hobjects, hherd.reap success, hspawn, hran,
        fun j hj ↦ ne_running_update nofun fun _ ↦ hkilled j hj⟩
    case h_2 => cases hstep

/-- The loop of the waits. -/
theorem Sound.waits (h : s.Sound ports segments sets) {rest : List (Fin n)}
    (hphase : s.phase = .waiting rest) {result : Option ℕ}
    (hstep : s.launcherStep ports result = some t) : t.Sound ports segments sets := by
  have hobjects := h.objects.launcher hstep
  obtain ⟨-, hherd, hcourse⟩ := h
  simp only [Course, hphase] at hcourse hherd
  cases rest with
  | nil =>
    simp only [launcherStep, hphase] at hstep
    obtain rfl := Option.some.inj hstep
    exact ⟨hobjects, hherd, hcourse⟩
  | cons i rest =>
    simp only [launcherStep, hphase] at hstep
    split at hstep
    case h_1 success hended =>
      obtain rfl := Option.some.inj hstep
      obtain ⟨hran, hspawn, hall, hfailed⟩ := hcourse
      refine ⟨hobjects, hherd.reap success, hran, hspawn, hall, ?_⟩
      rw [Bool.or_eq_true, Bool.not_eq_true', hfailed]
      exact (exists_reaped_reap hended).symm
    case h_2 => cases hstep

/-- `destroy`, and the exit. -/
theorem Sound.destroys (h : s.Sound ports segments sets)
    (hphase : s.phase = .destroySet ∨ s.phase = .destroySegment) {result : Option ℕ}
    (hstep : s.launcherStep ports result = some t) : t.Sound ports segments sets := by
  have hobjects := h.objects.launcher hstep
  obtain ⟨-, hherd, hcourse⟩ := h
  rcases hphase with hphase | hphase
  · simp only [Course, hphase] at hcourse hherd
    simp only [launcherStep, hphase] at hstep
    obtain rfl := Option.some.inj hstep
    exact ⟨hobjects, hherd, hcourse⟩
  · simp only [Course, hphase] at hcourse hherd
    simp only [launcherStep, hphase] at hstep
    obtain rfl := Option.some.inj hstep
    refine ⟨hobjects, hherd, ?_⟩
    rcases hcourse with ⟨hspawn, hran⟩ | hserved
    · exact Or.inl ⟨by rw [code, hspawn, Bool.true_or, if_pos rfl], hran⟩
    · exact Or.inr ⟨hserved, rfl⟩

/-- The next step of the launcher. -/
theorem Sound.launcher (h : s.Sound ports segments sets) {result : Option ℕ}
    (hstep : s.launcherStep ports result = some t) : t.Sound ports segments sets := by
  cases hphase : s.phase with
  | spawning i => exact h.spawns hphase hstep
  | killing rest => exact h.kills hphase hstep
  | collecting rest => exact h.collects hphase hstep
  | waiting rest => exact h.waits hphase hstep
  | destroySet => exact h.destroys (Or.inl hphase) hstep
  | destroySegment => exact h.destroys (Or.inr hphase) hstep
  | starting | stopping | exited code => simp only [launcherStep, hphase, reduceCtorEq] at hstep
  | _ => exact h.creates (by rw [hphase]; rfl) hstep

/-- Every step. -/
theorem Sound.step (h : s.Sound ports segments sets) {action : LaunchAction n}
    (hstep : s.step ports action = some t) : t.Sound ports segments sets := by
  cases action with
  | launcher result => exact h.launcher hstep
  | gateway => exact h.gateway hstep
  | exit i success =>
    rw [Launch.step, exitStep] at hstep
    split_ifs at hstep with halive
    obtain rfl := Option.some.inj hstep
    refine h.ends ?_ success
    rcases halive with halive | halive
    · rw [halive]
      rfl
    · rw [halive]
      rfl
  | terminate i =>
    rw [Launch.step, terminateStep] at hstep
    split_ifs at hstep with hdoomed
    obtain rfl := Option.some.inj hstep
    exact h.ends (by rw [hdoomed]; rfl) false

end Steps

/-! ### What the processes find -/

def configurations (ports : Fin n → UInt16) : List Configuration :=
  gatewayConfiguration :: List.ofFn (componentConfiguration ports)

/-- The process has an entry of its own in the table, and a semaphore that started at zero. -/
def Registered (ipc : Ipc) (configuration : Configuration) : Prop :=
  configuration.slot < ipc.head.componentCount ∧
    ipc.startValues[pendingSemIndex configuration.slot]? = some 0 ∧
      ∃ h : configuration.slot.toNat < maxComponents,
        ipc.head.components ⟨configuration.slot.toNat, h⟩ =
          ⟨configuration.port, configuration.slot⟩

/-- What the processes of a vehicle rely on: the objects exist, the region is marked, the semaphores
started with the values of `SharedMemory.create`, the slots are those of the registered processes,
and each process is in the table under its slot. -/
structure Usable (ports : Fin n → UInt16) (ipc : Ipc) : Prop where
  segment : ipc.shmid ∈ ipc.segments
  set : ipc.semid ∈ ipc.sets
  marked : ipc.head.magic = magic
  semaphores : ipc.startValues.map UInt16.toNat =
    (create n Unit).ringMutex :: (create n Unit).ringEmpty :: List.ofFn (create n Unit).pending
  slots : (configurations ports).map (fun c ↦ c.slot.toNat) = List.range (n + 1)
  registered : ∀ c ∈ configurations ports, Registered ipc c

theorem initialSemaphores_eq (hfew : n < maxComponents) :
    initialSemaphores n = 1 :: UInt16.ofNat slotCount :: List.replicate (n + 1) 0 := by
  have hvalues : semaphoreValues = 1 :: UInt16.ofNat slotCount :: List.replicate maxComponents 0 :=
    rfl
  have hcount : semaphoreCount (n + 1) = n + 1 + 1 + 1 := by
    rw [semaphoreCount, semPendingBase]
    omega
  rw [initialSemaphores, hvalues, hcount, List.take_succ_cons, List.take_succ_cons,
    List.take_replicate, min_eq_left hfew]

theorem map_initialSemaphores (hfew : n < maxComponents) :
    (initialSemaphores n).map UInt16.toNat =
      (create n Unit).ringMutex :: (create n Unit).ringEmpty ::
        List.ofFn (create n Unit).pending := by
  have hpending : List.ofFn (create n Unit).pending = List.replicate (n + 1) 0 :=
    List.ofFn_const (n + 1) 0
  rw [initialSemaphores_eq hfew, hpending, List.map_cons, List.map_cons, List.map_replicate]
  rfl

theorem toNat_ofNat_of_le {k : ℕ} (hk : k ≤ maxComponents) : (UInt16.ofNat k).toNat = k :=
  UInt16.toNat_ofNat_of_lt' (hk.trans_lt (by decide))

/-- A slot that `create` registers has a semaphore and is less than the count. -/
theorem registered_slot {head : RegionHead} {slot : UInt16} (hfew : n < maxComponents)
    (hcount : head.componentCount = UInt16.ofNat (n + 1)) (hslot : slot.toNat < n + 1) :
    slot < head.componentCount ∧ (initialSemaphores n)[pendingSemIndex slot]? = some 0 := by
  constructor
  · rw [UInt16.lt_iff_toNat_lt, hcount, toNat_ofNat_of_le hfew]
    exact hslot
  · have hindex : pendingSemIndex slot = slot.toNat + 1 + 1 := by
      rw [pendingSemIndex, semPendingBase]
      omega
    rw [initialSemaphores_eq hfew, hindex, List.getElem?_cons_succ, List.getElem?_cons_succ,
      List.getElem?_replicate, if_pos hslot]

/-- The table that `create` writes has an entry for every process. -/
theorem registered_of_fill {ports : Fin n → UInt16} {ipc : Ipc} (hfew : n < maxComponents)
    (hhead : ipc.head = .fill ports) (hsemaphores : ipc.startValues = initialSemaphores n)
    {c : Configuration} (hc : c ∈ configurations ports) : Registered ipc c := by
  rw [Registered, hsemaphores, hhead, ← and_assoc]
  rcases List.mem_cons.mp hc with rfl | hmem
  · exact ⟨registered_slot hfew rfl (Nat.succ_pos n), by decide, rfl⟩
  · obtain ⟨i, rfl⟩ := List.mem_ofFn.mp hmem
    have hslot : (componentConfiguration ports i).slot.toNat = i.val + 1 :=
      toNat_ofNat_of_le (i.isLt.trans hfew)
    have hbound : i.val + 1 < n + 1 := Nat.succ_lt_succ i.isLt
    refine ⟨registered_slot hfew rfl (hslot.trans_lt hbound), by omega, ?_⟩
    simp only [RegionHead.fill, hslot, Nat.le_add_left, hbound, and_self, dif_pos,
      Nat.add_sub_cancel]
    rfl

theorem slots_configurations (ports : Fin n → UInt16) (hfew : n < maxComponents) :
    (configurations ports).map (fun c ↦ c.slot.toNat) = List.range (n + 1) := by
  rw [configurations, List.map_cons, List.map_ofFn, List.range_succ_eq_map]
  congr 1
  refine List.ext_getElem (by simp) fun k hleft hright ↦ ?_
  simp only [List.getElem_ofFn, Function.comp_apply, List.getElem_map, List.getElem_range]
  have hk : k < n := by simpa using hleft
  exact toNat_ofNat_of_le (hk.trans hfew)

/-- A process other than the launcher's own thread of control uses the objects: a component, or the
protocol of the gateway. -/
def InUse (s : Launch n) : Prop :=
  (∃ i, s.components i = .running ∨ s.components i = .doomed) ∨
    s.phase = .starting ∨ (∃ rest, s.phase = .waiting rest) ∨ s.phase = .stopping

theorem Objects.usable {ports : Fin n → UInt16} {segments sets : Finset ℕ} {phase : LauncherPhase n}
    {ipc : Ipc} (h : Objects ports segments sets phase ipc) (hready : ready phase = true) :
    Usable ports ipc := by
  have hphase : ownsSegment phase = true ∧ ownsSet phase = true ∧ filled phase = true ∧
      checked phase = true := by
    cases phase with
    | checking | getSegment | getSet | attach | fill | detach | setAll | rollbackSet
    | rollbackSegment | destroySegment | exited code => cases hready
    | _ => exact ⟨rfl, rfl, rfl, rfl⟩
  obtain ⟨hsegment, hset, hfilled, hchecked⟩ := hphase
  have hsegments := h.segments
  have hsets := h.sets
  rw [hsegment] at hsegments
  rw [hset] at hsets
  have hfew := h.few hchecked
  refine ⟨?_, ?_, ?_, ?_, slots_configurations ports hfew, ?_⟩
  · rw [hsegments.2]
    exact Finset.mem_insert_self _ _
  · rw [hsets.2]
    exact Finset.mem_insert_self _ _
  · rw [h.head hfilled]
    rfl
  · rw [h.semaphores hready]
    exact map_initialSemaphores hfew
  · exact fun c hc ↦ registered_of_fill hfew (h.head hfilled) (h.semaphores hready) hc

/-- A component that has a process has the objects. -/
theorem Sound.ready_of_pending {ports : Fin n → UInt16} {segments sets : Finset ℕ} {s : Launch n}
    (h : s.Sound ports segments sets) {i : Fin n} (hpending : (s.components i).pending = true) :
    ready s.phase = true := by
  have hleft := h.herd.mem_left hpending
  have hcourse := h.course
  unfold Course at hcourse
  cases hphase : s.phase with
  | spawning _ | killing _ | collecting _ | starting | waiting _ | stopping | destroySet => rfl
  | destroySegment | exited code =>
    rw [hphase] at hleft
    cases hleft
  | _ =>
    simp only [hphase] at hleft hcourse
    rw [hcourse.1] at hleft
    cases hleft

/-- The exit status. -/
theorem Sound.code_eq_zero_iff {ports : Fin n → UInt16} {segments sets : Finset ℕ} {s : Launch n}
    (h : s.Sound ports segments sets) {code : ℕ} (hphase : s.phase = .exited code) :
    code ≤ 1 ∧ (code = 0 ↔ s.ran = true ∧ ∀ i, s.components i = .reaped true) := by
  have hcourse := h.course
  have hherd := h.herd
  simp only [Course, hphase] at hcourse
  rw [hphase, toReap] at hherd
  rcases hcourse with ⟨rfl, hran⟩ | ⟨⟨hran, hspawn, hall, hfailed⟩, rfl⟩
  · simp [hran]
  · have hreaped : ∀ i, ∃ success, s.components i = .reaped success := fun i ↦
      hherd.reaped i (hall i) List.not_mem_nil
    rw [Launch.code, hspawn, Bool.false_or]
    by_cases hsome : s.failed = true
    · obtain ⟨j, hj⟩ := hfailed.mp hsome
      refine ⟨by rw [if_pos hsome], ?_⟩
      simp only [if_pos hsome, one_ne_zero, false_iff, not_and, not_forall]
      exact fun _ ↦ ⟨j, by rw [hj]; nofun⟩
    · refine ⟨by rw [if_neg hsome]; exact zero_le_one, ?_⟩
      simp only [if_neg hsome, true_iff]
      refine ⟨hran, fun i ↦ ?_⟩
      obtain ⟨success, hi⟩ := hreaped i
      cases success with
      | true => exact hi
      | false => exact absurd (hfailed.mpr ⟨i, hi⟩) hsome

/-- In every run, whichever system call of `create` or fork fails and in whatever order the
processes take their steps, as long as `Gateway::run` and `stop` throw nothing: while a component
runs, or the gateway's protocol is there, the objects are usable; and when the launcher has exited,
the host has the objects it had before and no component has a process left. The exit status is zero
exactly when the gateway ran and every component exited with status zero. -/
theorem leaves_nothing {ports : Fin n → UInt16} {segments sets : Finset ℕ} {s : Launch n}
    (hrun : Reaches (step ports) Unguarded (initial segments sets) s) :
    (s.InUse → Usable ports s.ipc) ∧
      ∀ code, s.phase = .exited code →
        s.ipc.segments = segments ∧ s.ipc.sets = sets ∧
          (∀ i, s.components i = .unborn ∨ ∃ success, s.components i = .reaped success) ∧
          code ≤ 1 ∧ (code = 0 ↔ s.ran = true ∧ ∀ i, s.components i = .reaped true) := by
  have h : s.Sound ports segments sets :=
    hrun.invariant (fun _ _ _ hsound _ hstep ↦ hsound.step hstep)
      (sound_initial ports segments sets)
  constructor
  · rintro (⟨i, hi⟩ | hgateway)
    · refine h.objects.usable (h.ready_of_pending (i := i) ?_)
      rcases hi with hi | hi
      · rw [hi]
        rfl
      · rw [hi]
        rfl
    · refine h.objects.usable ?_
      rcases hgateway with hphase | ⟨rest, hphase⟩ | hphase
      · rw [hphase]
        rfl
      · rw [hphase]
        rfl
      · rw [hphase]
        rfl
  · intro code hphase
    have hobjects := h.objects
    have hherd := h.herd
    rw [hphase] at hobjects hherd
    refine ⟨hobjects.segments, hobjects.sets, fun i ↦ ?_, h.code_eq_zero_iff hphase⟩
    by_cases hi : i ∈ s.pids
    · exact Or.inr (hherd.reaped i hi List.not_mem_nil)
    · exact Or.inl (hherd.unborn i hi)

/-- The objects are created, and the second of two components cannot be forked. -/
def secondForkFailsActions : List (LaunchAction 2) :=
  [LaunchAction.launcher none, LaunchAction.launcher (some 5), LaunchAction.launcher (some 7)] ++
  List.replicate 5 (LaunchAction.launcher (some 0)) ++ [LaunchAction.launcher none]

/-- The first component is killed and waited for, and the objects are removed. -/
def cleanupActions : List (LaunchAction 2) :=
  List.replicate 2 (LaunchAction.launcher none) ++ [LaunchAction.terminate 0] ++
  List.replicate 4 (LaunchAction.launcher none)

/-- Only the segment that the host had is left. -/
theorem leaves_nothing_secondForkFails :
    ∃ s, run (step ![1, 2]) Unguarded (initial {3} ∅) (secondForkFailsActions ++ cleanupActions) =
        some s ∧
      s.ipc.segments = {3} ∧ s.ipc.sets = ∅ ∧ (s.components 0 = .unborn ∨
        ∃ success, s.components 0 = .reaped success) := by
  have hrun : (run (step ![1, 2]) Unguarded (initial {3} ∅)
      (secondForkFailsActions ++ cleanupActions)).map Launch.phase = some (.exited 1) := by
    decide +kernel
  obtain ⟨s, hs, hphase⟩ := Option.map_eq_some_iff.mp hrun
  obtain ⟨hsegments, hsets, hcomponents, -⟩ := (leaves_nothing (reaches_of_run _ hs)).2 1 hphase
  exact ⟨s, hs, hsegments, hsets, hcomponents 0⟩

/-! ### The launcher ends -/

/-- Guard of the steps that nobody else decides on: those of the launcher, and the end of a
component that has a `SIGTERM` pending. -/
def OfLauncher (_ : Launch n) : LaunchAction n → Prop
  | .launcher _ | .terminate _ => True
  | .gateway | .exit _ _ => False

/-- The steps that the launcher may still take, those that it leaves to a `SIGTERM` included. -/
def stepsLeft (pids : List (Fin n)) : LauncherPhase n → ℕ
  | .exited _ => 0
  | .destroySegment | .rollbackSegment => 1
  | .destroySet | .rollbackSet => 2
  | .stopping => 3
  | .collecting rest | .waiting rest => 4 + rest.length
  | .starting => 5 + pids.length
  | .killing rest => 5 + pids.length + 2 * rest.length
  | .spawning i => 6 + 3 * n + (n - i)
  | .setAll => 7 + 4 * n
  | .detach => 8 + 4 * n
  | .fill => 9 + 4 * n
  | .attach => 10 + 4 * n
  | .getSet => 11 + 4 * n
  | .getSegment => 12 + 4 * n
  | .checking => 13 + 4 * n

/-- One for a `SIGTERM` that is pending. -/
def doom : ComponentPhase → ℕ
  | .doomed => 1
  | _ => 0

def work (s : Launch n) : ℕ := stepsLeft s.pids s.phase + tally doom s.components

/-- What the launcher waits for, when it can do nothing: the gateway's functions, and a component
that runs and that it did not kill. -/
def HeldUp (s : Launch n) : Prop :=
  (∃ code, s.phase = .exited code) ∨ s.phase = .starting ∨ s.phase = .stopping ∨
    ∃ i rest, s.phase = .waiting (i :: rest) ∧ s.components i = .running

section Progress

variable {ports : Fin n → UInt16} {segments sets : Finset ℕ} {s t : Launch n}

theorem length_le_of_nodup {pids : List (Fin n)} (hnodup : pids.Nodup) : pids.length ≤ n := by
  simpa using hnodup.length_le_card

theorem tally_doom_le (components : Fin n → ComponentPhase) : tally doom components ≤ n := by
  have hone : ∀ i, doom (components i) ≤ 1 := fun i ↦ by
    cases components i <;> simp [doom]
  simpa [tally] using Finset.sum_le_sum fun i (_ : i ∈ Finset.univ) ↦ hone i

theorem Sound.work_le (h : s.Sound ports segments sets) : s.work ≤ 5 * n + 13 := by
  have hpids := length_le_of_nodup h.herd.nodup
  have hleft := h.herd.suffix.length_le
  have hdoom := tally_doom_le s.components
  have hcourse := h.course
  unfold Course at hcourse
  unfold work
  cases hphase : s.phase with
  | killing rest =>
    simp only [hphase] at hcourse
    have hrest := hcourse.2.2.1.length_le
    simp only [stepsLeft]
    omega
  | collecting rest | waiting rest =>
    rw [hphase, toReap] at hleft
    simp only [stepsLeft]
    omega
  | _ =>
    simp only [stepsLeft]
    omega

/-- A step of the launcher leaves less work. -/
theorem Sound.uses_launcher (h : s.Sound ports segments sets) {result : Option ℕ}
    (hstep : s.launcherStep ports result = some t) : t.work < s.work := by
  have hpids := length_le_of_nodup h.herd.nodup
  have hherd := h.herd
  unfold launcherStep at hstep
  unfold work
  split at hstep
  case h_1 hphase =>
    obtain rfl := Option.some.inj hstep
    rw [hphase]
    split_ifs <;> simp only [stepsLeft] <;> omega
  case h_2 hphase =>
    rw [hphase]
    split at hstep
    · obtain rfl := Option.some.inj hstep
      simp only [stepsLeft]
      omega
    · obtain ⟨ipc, -, rfl⟩ := Option.map_eq_some_iff.mp hstep
      simp only [stepsLeft]
      omega
  case h_3 hphase =>
    rw [hphase]
    split at hstep
    · obtain rfl := Option.some.inj hstep
      simp only [stepsLeft]
      omega
    · obtain ⟨ipc, -, rfl⟩ := Option.map_eq_some_iff.mp hstep
      simp only [stepsLeft]
      omega
  case h_4 hphase =>
    obtain rfl := Option.some.inj hstep
    rw [hphase]
    split_ifs <;> simp only [stepsLeft] <;> omega
  case h_7 hphase =>
    rw [hphase]
    split at hstep
    · obtain rfl := Option.some.inj hstep
      simp only [stepsLeft]
      omega
    · obtain rfl := Option.some.inj hstep
      simp only [stepsLeft]
      omega
  case h_10 i hphase =>
    rw [hphase] at hherd ⊢
    split_ifs at hstep with hi
    · split at hstep
      · obtain rfl := Option.some.inj hstep
        simp only [stepsLeft]
        omega
      · obtain rfl := Option.some.inj hstep
        have htally := tally_update doom s.components ⟨i, hi⟩ .running
        simp only [stepsLeft, doom] at htally ⊢
        omega
    · obtain rfl := Option.some.inj hstep
      simp only [stepsLeft]
      omega
  case h_12 i rest hphase =>
    obtain rfl := Option.some.inj hstep
    have htally := tally_update doom s.components i (kill (s.components i))
    -- a kill makes work for the `SIGTERM`, one step for the two that it takes off
    have hkill : doom (kill (s.components i)) ≤ doom (s.components i) + 1 := by
      cases s.components i <;> simp [kill, doom]
    simp only [hphase, stepsLeft, List.length_cons]
    omega
  case h_14 i rest hphase | h_16 i rest hphase =>
    split at hstep
    case h_1 success hended =>
      obtain rfl := Option.some.inj hstep
      have htally := tally_update doom s.components i (.reaped success)
      simp only [hphase, stepsLeft, List.length_cons, hended, doom] at htally ⊢
      omega
    case h_2 => cases hstep
  case h_19 | h_20 | h_21 => cases hstep
  all_goals
    obtain rfl := Option.some.inj hstep
    simp only [*, stepsLeft, List.length_nil]
    omega

/-- So does the end of a component by a `SIGTERM`. -/
theorem uses_terminate {i : Fin n} (hstep : s.terminateStep i = some t) : t.work < s.work := by
  unfold terminateStep at hstep
  split_ifs at hstep with hdoomed
  obtain rfl := Option.some.inj hstep
  have htally := tally_update doom s.components i (.ended false)
  simp only [work, hdoomed, doom] at htally ⊢
  omega

theorem exhausting (ports : Fin n → UInt16) (segments sets : Finset ℕ) :
    Exhausting (step ports) OfLauncher (Sound ports segments sets) work where
  keeps := fun _ _ _ hsound _ hstep ↦ hsound.step hstep
  uses := by
    intro s action t hsound hguard hstep
    cases action with
    | launcher result => exact hsound.uses_launcher hstep
    | terminate i => exact uses_terminate hstep
    | gateway => exact hguard.elim
    | exit i success => exact hguard.elim

/-- Where nothing of the launcher's is left to do, it waits for somebody else. -/
theorem Sound.heldUp (h : s.Sound ports segments sets)
    (hstuck : Stuck (Launch.step ports) OfLauncher s) : s.HeldUp := by
  have hlauncher : ∀ result, s.launcherStep ports result = none := fun result ↦
    hstuck (.launcher result) trivial
  have hterminate : ∀ i, s.components i ≠ .doomed := fun i hdoomed ↦ by
    have hnone := hstuck (.terminate i) trivial
    rw [Launch.step, terminateStep, if_pos hdoomed] at hnone
    cases hnone
  have hherd := h.herd
  have hcourse := h.course
  unfold Course at hcourse
  have hnone := hlauncher none
  unfold launcherStep at hnone
  cases hphase : s.phase with
  | exited code => exact Or.inl ⟨code, hphase⟩
  | starting => exact Or.inr (Or.inl hphase)
  | stopping => exact Or.inr (Or.inr (Or.inl hphase))
  | waiting rest =>
    cases rest with
    | nil => simp [hphase] at hnone
    | cons i rest =>
      rw [hphase] at hherd
      have hpending := hherd.pending i List.mem_cons_self
      refine Or.inr (Or.inr (Or.inr ⟨i, rest, hphase, ?_⟩))
      cases hcomponent : s.components i with
      | running => rfl
      | doomed => exact absurd hcomponent (hterminate i)
      | ended success => simp [hphase, hcomponent] at hnone
      | unborn | reaped success =>
        rw [hcomponent] at hpending
        cases hpending
  | collecting rest =>
    cases rest with
    | nil => simp [hphase] at hnone
    | cons i rest =>
      rw [hphase] at hherd
      simp only [hphase] at hcourse
      have hpending := hherd.pending i List.mem_cons_self
      have hkilled := hcourse.2.2 i (hherd.suffix.subset List.mem_cons_self)
      cases hcomponent : s.components i with
      | running => exact absurd hcomponent hkilled
      | doomed => exact absurd hcomponent (hterminate i)
      | ended success => simp [hphase, hcomponent] at hnone
      | unborn | reaped success =>
        rw [hcomponent] at hpending
        cases hpending
  | killing rest => cases rest <;> simp [hphase] at hnone
  | spawning i =>
    simp only [hphase] at hnone
    split_ifs at hnone
  | _ => simp [hphase] at hnone

/-- The launcher ends. From every reachable state, as long as `Gateway::run` and `stop` throw
nothing: the steps of the launcher, with those that it leaves to a `SIGTERM`, are at most `5 * n +
13` in a row, and when there is none left it has exited, or it is in `Gateway::run` or `stop`, or it
waits for a component that runs and was not killed. -/
theorem launcher_ends (hrun : Reaches (step ports) Unguarded (initial segments sets) s) :
    (∀ k t, ReachesIn (step ports) OfLauncher k s t → k ≤ 5 * n + 13) ∧
      (∃ t, Reaches (step ports) OfLauncher s t ∧ Stuck (step ports) OfLauncher t) ∧
        ∀ t, Reaches (step ports) OfLauncher s t → Stuck (step ports) OfLauncher t → t.HeldUp := by
  have h : s.Sound ports segments sets :=
    hrun.invariant (fun _ _ _ hsound _ hstep ↦ hsound.step hstep)
      (sound_initial ports segments sets)
  have hends := exhausting ports segments sets
  refine ⟨fun k t hsteps ↦ ?_, hends.exists_stuck h, fun t hreach hstuck ↦ ?_⟩
  · have hwork := hends.add_work_le h hsteps
    have hbound := h.work_le
    omega
  · exact (hreach.invariant hends.keeps h).heldUp hstuck

/-- From the failure of a fork on, nothing has to be waited for but the `SIGTERM`. -/
theorem launcher_ends_secondForkFails :
    ∃ s t, run (step ![1, 2]) Unguarded (initial {3} ∅) secondForkFailsActions = some s ∧
      s.phase = .killing [0] ∧ Reaches (step ![1, 2]) OfLauncher s t ∧ t.HeldUp := by
  have hrun : (run (step ![1, 2]) Unguarded (initial {3} ∅) secondForkFailsActions).map
      Launch.phase = some (.killing [0]) := by
    decide +kernel
  obtain ⟨s, hs, hphase⟩ := Option.map_eq_some_iff.mp hrun
  obtain ⟨-, ⟨t, hreach, hstuck⟩, hheld⟩ := launcher_ends (reaches_of_run _ hs)
  exact ⟨s, t, hs, hphase, hreach, hheld t hreach hstuck⟩

end Progress

end Launch

end VehicleComm.Application
