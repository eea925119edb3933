import VehicleComm.Kernel.Gps
import VehicleComm.Library.ThreadFamily
import VehicleComm.Network.Frame

/-!
# Changes of quadrant

`detect_quadrant_change` of `nic.h`, with the module of the kernel that it reads the quadrant from
and the request for a synchronisation that it leads to. `NIC::send` of the raw socket asks the
module for the quadrant (`GPS::quadrant`), writes it to the packet and exchanges it for the last
one; when they differ, `request_resync` sends a request, from within the first send. That is a
`NIC::send` too, so sends are nested.

Any number of threads of the gateway send. The module is the one of `VehicleComm.Kernel.Gps`; its
steps, the exchange and the accesses to the atomics of SPTP are steps of their own
(`Roaming.step`), so a thread may exchange a quadrant that has been left since it was read. The
quadrants exchanged, the calls of the handler and those that found SPTP stopped are kept for the
record.

However the threads interleave, a move of the vehicle leads to a bounded number of requests
(`resyncs_bounded`): sends neither nest nor answer each other without end.
-/

set_option autoImplicit false
set_option relaxedAutoImplicit false

namespace VehicleComm.Kernel.Gps

open Library

variable {k : Config} {τ : Type*} [DecidableEq τ] {s s' : Gps k τ}

/-- A thread that goes on to a phase other than `copying`, or that has taken the quadrant. -/
theorem goTo_calls (s : Gps k τ) (t : τ) {phase : IoctlPhase}
    (hphase : ∀ index q, phase = .copying index q → q = s.quadrant) (u : τ) :
    (s.goTo t phase).calls u = s.calls u ∨
      ∀ index q, (s.goTo t phase).calls u = .copying index q → q = s.quadrant := by
  have hself : (s.goTo t phase).calls t = phase := Function.update_self ..
  by_cases hu : u = t
  · rw [hu, hself]
    exact Or.inr hphase
  · exact Or.inl (Function.update_of_ne hu _ _)

/-- The steps under the lock. -/
theorem locked_effect {t : τ} {random : UInt32} {place : Section}
    (hstep : s.locked t random place = some s') :
    s.now ≤ s'.now ∧ s.taken <+: s'.taken ∧
      (s'.moves = s.moves ++ [s.now] ∨
        s'.quadrant = s.quadrant ∧ s'.moves = s.moves ∧ ∀ u, s'.calls u = s.calls u ∨
          ∀ index q, s'.calls u = .copying index q → q = s.quadrant) := by
  cases place with
  | checking =>
    simp only [locked] at hstep
    split_ifs at hstep
    all_goals
      obtain rfl := Option.some.inj hstep
      exact ⟨le_rfl, List.prefix_rfl, Or.inr ⟨rfl, rfl, fun _ ↦ Or.inl rfl⟩⟩
  | moving =>
    obtain ⟨next, -, rfl⟩ := Option.map_eq_some_iff.mp hstep
    exact ⟨le_rfl, List.prefix_rfl, Or.inl rfl⟩
  | stamping =>
    obtain rfl := Option.some.inj hstep
    exact ⟨le_rfl, List.prefix_rfl, Or.inr ⟨rfl, rfl, fun _ ↦ Or.inl rfl⟩⟩
  | reading =>
    obtain rfl := Option.some.inj hstep
    refine ⟨le_rfl, List.prefix_append _ _, Or.inr ⟨rfl, rfl, fun u ↦ ?_⟩⟩
    refine goTo_calls { s with
      gpsLock := none
      taken := s.taken ++ [s.quadrant] } t (fun index q hq ↦ ?_) u
    cases hq
    rfl
  | fixing =>
    obtain rfl := Option.some.inj hstep
    refine ⟨le_rfl, List.prefix_rfl, Or.inr ⟨rfl, rfl, fun u ↦ ?_⟩⟩
    exact goTo_calls { s with
      fixed := true
      gpsLock := none } t (fun _ _ hq ↦ by cases hq) u

/-- What a step of the module may do: it moves the quadrant once, or leaves it where it is; then
only a thread that has just taken it comes to have it before `copy_to_user`. -/
theorem step_effect {action : GpsAction τ} (hstep : s.step action = some s') :
    s.now ≤ s'.now ∧ s.taken <+: s'.taken ∧
      (s'.moves = s.moves ++ [s.now] ∨
        s'.quadrant = s.quadrant ∧ s'.moves = s.moves ∧ ∀ u, s'.calls u = s.calls u ∨
          ∀ index q, s'.calls u = .copying index q → q = s.quadrant) := by
  cases action with
  | elapse d =>
    obtain rfl := Option.some.inj hstep
    exact ⟨Nat.le_add_right _ _, List.prefix_rfl, Or.inr ⟨rfl, rfl, fun _ ↦ Or.inl rfl⟩⟩
  | ioctl t cmd =>
    simp only [step] at hstep
    split at hstep
    · split at hstep
      all_goals
        obtain rfl := Option.some.inj hstep
        exact ⟨le_rfl, List.prefix_rfl, Or.inr ⟨rfl, rfl, s.goTo_calls t (by simp)⟩⟩
    · cases hstep
  | proceed t random =>
    simp only [step, proceed] at hstep
    split at hstep
    · split_ifs at hstep
      obtain rfl := Option.some.inj hstep
      exact ⟨le_rfl, List.prefix_rfl, Or.inr ⟨rfl, rfl, s.goTo_calls t (by simp)⟩⟩
    · split at hstep
      · next holder place _ =>
        split_ifs at hstep
        exact locked_effect hstep
      · cases hstep
    · obtain rfl := Option.some.inj hstep
      exact ⟨le_rfl, List.prefix_rfl, Or.inr ⟨rfl, rfl, s.goTo_calls t (by simp)⟩⟩
    · cases hstep
    · cases hstep
  | copyToUser t ok =>
    simp only [step] at hstep
    split at hstep
    · split_ifs at hstep
      all_goals
        obtain rfl := Option.some.inj hstep
        exact ⟨le_rfl, List.prefix_rfl, Or.inr ⟨rfl, rfl, s.goTo_calls t (by simp)⟩⟩
    · cases hstep

end VehicleComm.Kernel.Gps

namespace VehicleComm.Network

open Library Kernel

/-- `static_cast<uint8_t>(q)`. -/
def quadrantByte (q : ℤ) : UInt8 := UInt8.ofNat (q % 256).toNat

/-- Where a thread is in `NIC::send`: in `GPS::quadrant`; before the write to the packet; before the
exchange; in `request_resync`, before the test of `_running` and before the increment of
`_resync_requests`; in `send_sync_request`; and before `engine_send`. -/
inductive StampPhase
  | querying
  | writing (q : UInt8)
  | detecting (q : UInt8)
  | notifying
  | requesting
  | resending
  | transmitting
deriving DecidableEq

/-- The gateway: the module, whether the device is open, `_last_quadrant`, whether SPTP runs, the
sends of every thread with the innermost first, and `_resync_requests`. For the record, the
quadrants exchanged, the calls of `_on_quadrant_change` and those that were ignored. -/
structure Roaming (k : Config) (τ : Type*) where
  gps : Gps k τ
  opened : Bool
  lastQuadrant : UInt8
  running : Bool
  sends : τ → List StampPhase
  resyncRequests : ℕ
  exchanged : List UInt8
  changes : ℕ
  ignored : ℕ

/-- What may happen: time passes; a thread that is not in a send calls `gps_ioctl`; a thread goes on
in `gps_ioctl`, or returns from it; a thread calls `NIC::send`; the innermost send of a thread goes
on, and in `send_sync_request` it is sent or no buffer is free; SPTP starts or stops. -/
inductive RoamingAction (τ : Type*)
  | elapse (d : ℕ)
  | ioctl (t : τ) (cmd : UInt32)
  | kernel (t : τ) (random : UInt32)
  | copyToUser (t : τ) (ok : Bool)
  | send (t : τ)
  | proceed (t : τ)
  | noBuffer (t : τ)
  | setRunning (on : Bool)

namespace Roaming

variable {k : Config} {τ : Type*}

def create (k : Config) (τ : Type*) (opened : Bool) (now : ℕ) (initialQuadrant : ℤ)
    (random : UInt32) : Roaming k τ where
  gps := Gps.gpsInit k τ now initialQuadrant random
  opened := opened
  lastQuadrant := quadrantNone
  running := false
  sends := fun _ ↦ []
  resyncRequests := 0
  exchanged := []
  changes := 0
  ignored := 0

section Step

variable [DecidableEq τ]

def setSends (s : Roaming k τ) (t : τ) (sends : List StampPhase) : Roaming k τ :=
  { s with sends := Function.update s.sends t sends }

/-- `GPS::quadrant` at the start of a send: the call of `gps_ioctl`, when the device is open. -/
def enter (s : Roaming k τ) (t : τ) (outer : List StampPhase) : Option (Roaming k τ) :=
  if s.opened then
    (s.gps.step (.ioctl t gpsIocGetQuadrant)).map fun gps ↦
      { s with gps := gps }.setSends t (.querying :: outer)
  else some (s.setSends t (.writing quadrantNone :: outer))

/-- `detect_quadrant_change`, up to the call of the handler. -/
def detect (s : Roaming k τ) (t : τ) (q : UInt8) (outer : List StampPhase) : Roaming k τ :=
  if q = quadrantNone then s.setSends t (.transmitting :: outer)
  else
    let exchanged := { s with
      lastQuadrant := q
      exchanged := s.exchanged ++ [q] }
    if s.lastQuadrant ≠ quadrantNone ∧ s.lastQuadrant ≠ q then
      { exchanged with changes := s.changes + 1 }.setSends t (.notifying :: outer)
    else exchanged.setSends t (.transmitting :: outer)

def proceed (s : Roaming k τ) (t : τ) : Option (Roaming k τ) :=
  match s.sends t with
  | .writing q :: outer => some (s.setSends t (.detecting q :: outer))
  | .detecting q :: outer => some (s.detect t q outer)
  | .notifying :: outer =>
    if s.running then some (s.setSends t (.requesting :: outer))
    else some ({ s with ignored := s.ignored + 1 }.setSends t (.transmitting :: outer))
  | .requesting :: outer =>
    some ({ s with resyncRequests := s.resyncRequests + 1 }.setSends t (.resending :: outer))
  | .resending :: outer => s.enter t (.transmitting :: outer)
  | .transmitting :: outer => some (s.setSends t outer)
  | .querying :: _ | [] => none

/-- The return from `gps_ioctl`, for a send with the quadrant it read. -/
def copyToUser (s : Roaming k τ) (t : τ) (ok : Bool) : Option (Roaming k τ) :=
  (s.gps.step (.copyToUser t ok)).map fun gps ↦
    match s.gps.calls t, s.sends t with
    | .copying _ q, .querying :: outer =>
      { s with gps := gps }.setSends t
        (.writing (if ok then quadrantByte q else quadrantNone) :: outer)
    | _, _ => { s with gps := gps }

def step (s : Roaming k τ) : RoamingAction τ → Option (Roaming k τ)
  | .elapse d => (s.gps.step (.elapse d)).map fun gps ↦ { s with gps := gps }
  | .ioctl t cmd =>
    if s.sends t = [] then (s.gps.step (.ioctl t cmd)).map fun gps ↦ { s with gps := gps }
    else none
  | .kernel t random => (s.gps.step (.proceed t random)).map fun gps ↦ { s with gps := gps }
  | .copyToUser t ok => s.copyToUser t ok
  | .send t => if s.sends t = [] then s.enter t [] else none
  | .proceed t => s.proceed t
  | .noBuffer t =>
    match s.sends t with
    | .resending :: outer => some (s.setSends t (.transmitting :: outer))
    | _ => none
  | .setRunning on => some { s with running := on }

end Step

/-! ### The record -/

/-- How often the quadrant changes in a sequence. -/
def changesIn : List UInt8 → ℕ
  | p :: q :: rest => (if p ≠ q then 1 else 0) + changesIn (q :: rest)
  | _ => 0

theorem changesIn_concat (exchanged : List UInt8) (q : UInt8) :
    changesIn (exchanged ++ [q]) =
      changesIn exchanged + if ∃ p ∈ exchanged.getLast?, p ≠ q then 1 else 0 := by
  induction exchanged with
  | nil => simp [changesIn]
  | cons p rest ih =>
    cases rest with
    | nil => simp [changesIn]
    | cons p' rest =>
      rw [List.cons_append, List.cons_append, changesIn, ← List.cons_append, ih, changesIn,
        List.getLast?_cons_cons, add_assoc]

/-- The handler was called and the request is not counted yet. -/
def pending : List StampPhase → ℕ
  | .notifying :: _ | .requesting :: _ => 1
  | _ => 0

/-- How many changes a stack of sends comes from: one for each send within another, and one for the
handler that is running. -/
def depth : List StampPhase → ℕ
  | [] => 0
  | .notifying :: outer | .requesting :: outer | .resending :: outer => outer.length + 1
  | _ :: outer => outer.length

/-- The quadrant that a send has read and not exchanged. -/
def inHand : List StampPhase → UInt8
  | .writing q :: _ | .detecting q :: _ => q
  | _ => quadrantNone

/-- The quadrant that a thread has taken, or a send of it has read, and not exchanged. -/
def held (call : IoctlPhase) (sends : List StampPhase) : UInt8 :=
  match call, sends with
  | .copying _ q, .querying :: _ => quadrantByte q
  | _, _ => inHand sends

/-- A quadrant that is still to be exchanged counts twice when the vehicle has left it: once for the
exchange and once for the one that follows. -/
def cost (current : UInt8) (thread : IoctlPhase × List StampPhase) : ℕ :=
  if held thread.1 thread.2 = quadrantNone ∨ held thread.1 thread.2 = current then 0 else 2

def current (s : Roaming k τ) : UInt8 := quadrantByte s.gps.quadrant

/-- The last quadrant exchanged is not the one that the vehicle is in. -/
def Behind (s : Roaming k τ) : Prop :=
  s.lastQuadrant ≠ quadrantNone ∧ s.lastQuadrant ≠ s.current

instance (s : Roaming k τ) : Decidable s.Behind := inferInstanceAs (Decidable (_ ∧ _))

section Debt

variable [Fintype τ]

/-- How many changes can still be noticed while the vehicle stays. -/
def debt (s : Roaming k τ) : ℕ :=
  tally (cost s.current) (fun u ↦ (s.gps.calls u, s.sends u)) + if s.Behind then 1 else 0

variable {s t : Roaming k τ}

theorem cost_le_two (current : UInt8) (thread : IoctlPhase × List StampPhase) :
    cost current thread ≤ 2 := by
  unfold cost
  split_ifs <;> omega

/-- After a move every thread may hold a quadrant that was left. -/
theorem debt_le (s : Roaming k τ) : s.debt ≤ 2 * Fintype.card τ + 1 := by
  have hthreads : tally (cost s.current) (fun u ↦ (s.gps.calls u, s.sends u)) ≤
      Fintype.card τ * 2 := by
    rw [tally, ← smul_eq_mul, ← Finset.card_univ]
    exact Finset.sum_le_card_nsmul _ _ _ fun u _ ↦ cost_le_two _ _
  have hlast : (if s.Behind then 1 else 0) ≤ 1 := by
    split_ifs <;> omega
  rw [debt]
  omega

/-- A step in which nobody comes to hold a quadrant that was left. -/
theorem debt_le_of_cost (hcurrent : t.current = s.current) (hlast : t.lastQuadrant = s.lastQuadrant)
    (hcost : ∀ u, cost s.current (t.gps.calls u, t.sends u) ≤
      cost s.current (s.gps.calls u, s.sends u)) : t.debt ≤ s.debt := by
  have hbehind : t.Behind ↔ s.Behind := by rw [Behind, Behind, hcurrent, hlast]
  have hthreads : tally (cost s.current) (fun u ↦ (t.gps.calls u, t.sends u)) ≤
      tally (cost s.current) (fun u ↦ (s.gps.calls u, s.sends u)) :=
    Finset.sum_le_sum fun u _ ↦ hcost u
  rw [debt, debt, hcurrent]
  simp only [hbehind]
  omega

end Debt

/-! ### The invariant -/

/-- A quadrant, if it is one, was taken from the module. -/
def Taken (s : Roaming k τ) (q : UInt8) : Prop :=
  q ≠ quadrantNone → ∃ x ∈ s.gps.taken, q = quadrantByte x

/-- What holds in every state, for the time of the start: what is exchanged was taken; each call of
the handler comes from a change and is counted; a send has no others within it than the innermost
one has outside; and the changes noticed, with those that still can be, are bounded by the moves. -/
structure Sound [Fintype τ] (start : ℕ) (s : Roaming k τ) : Prop where
  gps : s.gps.Sound
  now : start ≤ s.gps.now
  since : ∀ m ∈ s.gps.moves, start ≤ m
  outer : ∀ u, ∀ p ∈ (s.sends u).tail, p = .transmitting
  reading : ∀ u, s.Taken (inHand (s.sends u))
  exchanged : ∀ q ∈ s.exchanged, q ≠ quadrantNone ∧ s.Taken q
  last : s.lastQuadrant = s.exchanged.getLast?.getD quadrantNone
  changes : s.changes = changesIn s.exchanged
  answered : s.changes = s.resyncRequests + s.ignored + tally pending s.sends
  nested : ∀ u, depth (s.sends u) ≤ s.changes
  debt : s.changes + s.debt ≤ (2 * Fintype.card τ + 1) * s.gps.moves.length

section Steps

variable [Fintype τ] [DecidableEq τ] {start : ℕ} {s t : Roaming k τ} {u : τ}

theorem sends_ne (p : StampPhase) (outer : List StampPhase) (hp : p ≠ .querying) :
    ∀ rest, p :: outer ≠ .querying :: rest := fun _ hrest ↦ hp (List.cons.inj hrest).1

/-- Only `GPS::quadrant` looks at what `gps_ioctl` has taken. -/
theorem held_of_not_querying (call : IoctlPhase) {sends : List StampPhase}
    (hsends : ∀ outer, sends ≠ .querying :: outer) : held call sends = inHand sends := by
  unfold held
  split
  · next outer => exact absurd rfl (hsends outer)
  · rfl

/-- A send that has read nothing. -/
theorem cost_eq_zero (current : UInt8) (call : IoctlPhase) (sends : List StampPhase)
    (hsends : ∀ outer, sends ≠ .querying :: outer) (hhand : inHand sends = quadrantNone) :
    cost current (call, sends) = 0 := by
  have hheld : held call sends = quadrantNone := (held_of_not_querying call hsends).trans hhand
  rw [cost, if_pos (Or.inl hheld)]

/-- A thread that is in another phase of `gps_ioctl` holds what it held, or a quadrant that the
vehicle is in. -/
theorem cost_of_call {current : UInt8} {call call' : IoctlPhase} (sends : List StampPhase)
    (hcall : call' = call ∨ ∀ index q, call' = .copying index q → quadrantByte q = current) :
    cost current (call', sends) ≤ cost current (call, sends) := by
  rcases hcall with rfl | hfresh
  · exact le_rfl
  by_cases hquerying : ∃ outer, sends = .querying :: outer
  · obtain ⟨outer, rfl⟩ := hquerying
    have hnothing : held call' (.querying :: outer) = quadrantNone ∨
        held call' (.querying :: outer) = current := by
      cases call' with
      | copying index q => exact Or.inr (hfresh index q rfl)
      | _ => exact Or.inl rfl
    rw [cost, if_pos hnothing]
    exact Nat.zero_le _
  · have hsends : ∀ outer, sends ≠ .querying :: outer := fun outer hs ↦ hquerying ⟨outer, hs⟩
    simp only [cost, held_of_not_querying _ hsends]
    exact le_rfl

/-- A step of the module. -/
theorem Sound.gpsStep (h : s.Sound start) {action : GpsAction τ} {gps : Gps k τ}
    (hstep : s.gps.step action = some gps) : { s with gps := gps }.Sound start := by
  obtain ⟨hnow, ⟨more, htaken⟩, hmoves⟩ := Gps.step_effect hstep
  have hkeep : ∀ q, s.Taken q → { s with gps := gps }.Taken q := fun q hq hreal ↦ by
    obtain ⟨x, hx, hbyte⟩ := hq hreal
    exact ⟨x, htaken ▸ List.mem_append_left _ hx, hbyte⟩
  refine
    { h with
      gps := h.gps.step hstep
      now := h.now.trans hnow
      since := ?_
      reading := fun u ↦ hkeep _ (h.reading u)
      exchanged := fun q hq ↦ ⟨(h.exchanged q hq).1, hkeep q (h.exchanged q hq).2⟩
      debt := ?_ }
  · rcases hmoves with hmoved | ⟨-, hsame, -⟩
    · intro m hm
      rw [hmoved] at hm
      rcases List.mem_append.mp hm with hold | hnew
      · exact h.since m hold
      · exact (List.mem_singleton.mp hnew) ▸ h.now
    · exact hsame ▸ h.since
  · have hdebt := h.debt
    rcases hmoves with hmoved | ⟨hquadrant, hsame, hcalls⟩
    · have hle := debt_le { s with gps := gps }
      simp only [hmoved, List.length_append, List.length_singleton, mul_add, mul_one]
      omega
    · have hle : Roaming.debt { s with gps := gps } ≤ s.debt := by
        refine debt_le_of_cost (by rw [current, current, hquadrant]) rfl fun u ↦ ?_
        refine cost_of_call _ ((hcalls u).imp id fun hfresh index q hq ↦ ?_)
        rw [current, hfresh index q hq]
      simp only [hsame]
      omega

/-- Only the sends of one thread change. -/
theorem tally_setSends (cost : IoctlPhase × List StampPhase → ℕ)
    (s : Roaming k τ) (u : τ) (stack : List StampPhase) :
    tally cost (fun v ↦ (s.gps.calls v, Function.update s.sends u stack v)) +
        cost (s.gps.calls u, s.sends u) =
      tally cost (fun v ↦ (s.gps.calls v, s.sends v)) + cost (s.gps.calls u, stack) := by
  have hfamily : (fun v ↦ (s.gps.calls v, Function.update s.sends u stack v)) =
      Function.update (fun v ↦ (s.gps.calls v, s.sends v)) u (s.gps.calls u, stack) := by
    funext v
    by_cases hv : v = u
    · rw [hv, Function.update_self, Function.update_self]
    · rw [Function.update_of_ne hv, Function.update_of_ne hv]
  rw [hfamily]
  exact tally_update cost _ u _

omit [Fintype τ] in
theorem forall_sends {stack : List StampPhase} (P : List StampPhase → Prop) :
    (∀ v, P (Function.update s.sends u stack v)) ↔ P stack ∧ ∀ v, v ≠ u → P (s.sends v) :=
  Function.forall_update_iff s.sends fun _ ↦ P

/-- The innermost send of a thread goes on without an exchange. -/
theorem Sound.move (h : s.Sound start) {stack : List StampPhase} {requests ignored : ℕ}
    (houter : ∀ p ∈ stack.tail, p = .transmitting) (hreading : s.Taken (inHand stack))
    (hcounts : requests + ignored + pending stack =
      s.resyncRequests + s.ignored + pending (s.sends u))
    (hdepth : depth stack ≤ depth (s.sends u))
    (hcost : cost s.current (s.gps.calls u, stack) ≤
      cost s.current (s.gps.calls u, s.sends u)) :
    { s.setSends u stack with
      resyncRequests := requests
      ignored := ignored }.Sound start := by
  refine
    { h with
      outer := (forall_sends fun sends ↦ ∀ p ∈ sends.tail, p = .transmitting).mpr
        ⟨houter, fun v _ ↦ h.outer v⟩
      reading := (forall_sends fun sends ↦ s.Taken (inHand sends)).mpr
        ⟨hreading, fun v _ ↦ h.reading v⟩
      answered := ?_
      nested := (forall_sends fun sends ↦ depth sends ≤ s.changes).mpr
        ⟨hdepth.trans (h.nested u), fun v _ ↦ h.nested v⟩
      debt := ?_ }
  · have hpending := tally_update pending s.sends u stack
    have hanswered := h.answered
    show s.changes = requests + ignored + tally pending (Function.update s.sends u stack)
    omega
  · have hle : Roaming.debt { s.setSends u stack with
        resyncRequests := requests
        ignored := ignored } ≤ s.debt := by
      refine debt_le_of_cost rfl rfl fun v ↦ ?_
      show cost s.current (s.gps.calls v, Function.update s.sends u stack v) ≤ _
      by_cases hv : v = u
      · rw [hv, Function.update_self]
        exact hcost
      · rw [Function.update_of_ne hv]
    exact (Nat.add_le_add_left hle _).trans h.debt

omit [DecidableEq τ] in
/-- The test of `detect_quadrant_change` compares the quadrant with the last one exchanged. -/
theorem Sound.differs_iff (h : s.Sound start) (q : UInt8) :
    (∃ p ∈ s.exchanged.getLast?, p ≠ q) ↔
      s.exchanged.getLast?.getD quadrantNone ≠ quadrantNone ∧
        s.exchanged.getLast?.getD quadrantNone ≠ q := by
  cases hlast : s.exchanged.getLast? with
  | none => simp
  | some p =>
    have hreal := (h.exchanged p (List.mem_of_getLast? hlast)).1
    simp [hreal]

omit [DecidableEq τ] in
/-- Outside of the innermost send they wait before `engine_send`. -/
theorem Sound.waits (h : s.Sound start) {p : StampPhase} {outer : List StampPhase}
    (hsends : s.sends u = p :: outer) : ∀ p' ∈ outer, p' = .transmitting := by
  have hall := h.outer u
  rwa [hsends] at hall

/-- The exchange. A quadrant that the vehicle has left was counted twice, which pays for this change
and for the one that the next exchange may find. -/
theorem Sound.exchange (h : s.Sound start) {q : UInt8} {outer : List StampPhase}
    (hsends : s.sends u = .detecting q :: outer) (hreal : q ≠ quadrantNone) (top : StampPhase)
    (more : ℕ)
    (hmore : more = if s.lastQuadrant ≠ quadrantNone ∧ s.lastQuadrant ≠ q then 1 else 0)
    (hpending : pending (top :: outer) = more) (hdepth : depth (top :: outer) = outer.length + more)
    (hhand : inHand (top :: outer) = quadrantNone) (hquerying : top ≠ .querying) :
    { s.setSends u (top :: outer) with
      lastQuadrant := q
      exchanged := s.exchanged ++ [q]
      changes := s.changes + more }.Sound start := by
  have htaken : s.Taken q := by
    have hread := h.reading u
    rwa [hsends] at hread
  have hold : outer.length ≤ s.changes := by
    have hnested := h.nested u
    rwa [hsends] at hnested
  refine
    { gps := h.gps
      now := h.now
      since := h.since
      outer := (forall_sends fun sends ↦ ∀ p ∈ sends.tail, p = .transmitting).mpr
        ⟨h.waits hsends, fun v _ ↦ h.outer v⟩
      reading := (forall_sends fun sends ↦ s.Taken (inHand sends)).mpr
        ⟨fun hne ↦ absurd hhand hne, fun v _ ↦ h.reading v⟩
      exchanged := fun p hp ↦ ?_
      last := ?_
      changes := ?_
      answered := ?_
      nested := (forall_sends fun sends ↦ depth sends ≤ s.changes + more).mpr
        ⟨hdepth ▸ Nat.add_le_add_right hold more,
          fun v _ ↦ (h.nested v).trans (Nat.le_add_right _ _)⟩
      debt := ?_ }
  · rcases List.mem_append.mp hp with hbefore | hnew
    · exact h.exchanged p hbefore
    · rw [List.mem_singleton.mp hnew]
      exact ⟨hreal, htaken⟩
  · show q = (s.exchanged ++ [q]).getLast?.getD quadrantNone
    rw [List.getLast?_concat]
    rfl
  · show s.changes + more = changesIn (s.exchanged ++ [q])
    simp only [changesIn_concat, h.changes, hmore, h.last, h.differs_iff q]
  · have htally := tally_update pending s.sends u (top :: outer)
    have hanswered := h.answered
    have hnone : pending (s.sends u) = 0 := by rw [hsends]; rfl
    show s.changes + more =
      s.resyncRequests + s.ignored + tally pending (Function.update s.sends u (top :: outer))
    omega
  · have htally := tally_setSends (cost s.current) s u (top :: outer)
    have hbefore : cost s.current (s.gps.calls u, s.sends u) = if q = s.current then 0 else 2 := by
      have hheld : held (s.gps.calls u) (.detecting q :: outer) = q :=
        held_of_not_querying _ (by simp)
      simp only [hsends, cost, hheld, hreal, false_or]
    have hafter : cost s.current (s.gps.calls u, top :: outer) = 0 :=
      cost_eq_zero _ _ _ (sends_ne _ outer hquerying) hhand
    have hnew : (if q ≠ quadrantNone ∧ q ≠ s.current then 1 else 0) =
        if q = s.current then 0 else 1 := by
      simp [hreal]
    have hpaid : more + (if q = s.current then 0 else 1) ≤
        (if q = s.current then 0 else 2) + if s.Behind then 1 else 0 := by
      rw [hmore]
      by_cases hcurrent : q = s.current
      · rw [if_pos hcurrent, if_pos hcurrent, hcurrent, add_zero, zero_add]
        by_cases hbehind : s.Behind
        · rw [if_pos hbehind, if_pos (show _ ∧ _ from hbehind)]
        · rw [if_neg hbehind, if_neg (show ¬(_ ∧ _) from hbehind)]
      · rw [if_neg hcurrent, if_neg hcurrent]
        split_ifs <;> omega
    have hdebt := h.debt
    rw [Roaming.debt] at hdebt
    rw [hbefore, hafter] at htally
    show s.changes + more + (tally (cost s.current)
      (fun v ↦ (s.gps.calls v, Function.update s.sends u (top :: outer) v)) +
        if q ≠ quadrantNone ∧ q ≠ s.current then 1 else 0) ≤
          (2 * Fintype.card τ + 1) * s.gps.moves.length
    rw [hnew]
    omega

/-- The innermost send goes on to a phase in which it holds no quadrant. -/
theorem Sound.goOn (h : s.Sound start) {p : StampPhase} {outer : List StampPhase}
    (hsends : s.sends u = p :: outer) (p' : StampPhase) (requests ignored : ℕ)
    (hcounts : requests + ignored + pending (p' :: outer) =
      s.resyncRequests + s.ignored + pending (p :: outer))
    (hdepth : depth (p' :: outer) ≤ depth (p :: outer)) (hquerying : p' ≠ .querying)
    (hhand : inHand (p' :: outer) = quadrantNone) :
    { s.setSends u (p' :: outer) with
      resyncRequests := requests
      ignored := ignored }.Sound start := by
  refine h.move (h.waits hsends) (fun hne ↦ absurd hhand hne) ?_ ?_ ?_
  · rw [hsends]
    exact hcounts
  · rw [hsends]
    exact hdepth
  · rw [cost_eq_zero _ _ _ (sends_ne _ outer hquerying) hhand]
    exact Nat.zero_le _

theorem Sound.detect (h : s.Sound start) {q : UInt8} {outer : List StampPhase}
    (hsends : s.sends u = .detecting q :: outer) : (s.detect u q outer).Sound start := by
  unfold Roaming.detect
  split_ifs with hnone hchange
  · exact h.goOn hsends .transmitting _ _ rfl le_rfl (by simp) rfl
  · exact h.exchange hsends hnone .notifying 1 (by rw [if_pos hchange]) rfl rfl rfl (by simp)
  · exact h.exchange hsends hnone .transmitting 0 (by rw [if_neg hchange]) rfl rfl rfl (by simp)

/-- The innermost send goes on, and neither a change nor a request is counted. -/
theorem Sound.setSends (h : s.Sound start) {stack : List StampPhase}
    (houter : ∀ p ∈ stack.tail, p = .transmitting) (hreading : s.Taken (inHand stack))
    (hpending : pending stack = pending (s.sends u)) (hdepth : depth stack ≤ depth (s.sends u))
    (hcost : cost s.current (s.gps.calls u, stack) ≤
      cost s.current (s.gps.calls u, s.sends u)) : (s.setSends u stack).Sound start :=
  h.move houter hreading (by rw [hpending]) hdepth hcost

/-- A send begins, within another one or not. -/
theorem Sound.enter (h : s.Sound start) {outer : List StampPhase}
    (houter : ∀ p ∈ outer, p = .transmitting) (hpending : pending (s.sends u) = 0)
    (hdepth : outer.length ≤ depth (s.sends u)) (hstep : s.enter u outer = some t) :
    t.Sound start := by
  unfold Roaming.enter at hstep
  split_ifs at hstep with hopened
  · obtain ⟨gps, hgps, rfl⟩ := Option.map_eq_some_iff.mp hstep
    have hcall : gps.calls u = .locking .getQuadrant := by
      simp only [Gps.step] at hgps
      split at hgps
      · rw [show commandOf gpsIocGetQuadrant = some Command.getQuadrant from rfl] at hgps
        obtain rfl := Option.some.inj hgps
        exact Function.update_self ..
      · cases hgps
    refine (h.gpsStep hgps).setSends houter (fun hne ↦ absurd rfl hne) hpending.symm hdepth ?_
    simp only [hcall]
    exact (if_pos (Or.inl rfl)).trans_le (Nat.zero_le _)
  · obtain rfl := Option.some.inj hstep
    refine h.setSends houter (fun hne ↦ absurd rfl hne) hpending.symm hdepth ?_
    rw [cost_eq_zero _ _ _ (sends_ne (.writing quadrantNone) outer (by simp)) rfl]
    exact Nat.zero_le _

/-- Sends that wait for one within them. -/
theorem eq_of_waiting {outer : List StampPhase} (houter : ∀ p ∈ outer, p = .transmitting) :
    (∀ rest, outer ≠ .querying :: rest) ∧ inHand outer = quadrantNone ∧ pending outer = 0 ∧
      depth outer ≤ outer.length := by
  cases outer with
  | nil => exact ⟨(by simp), rfl, rfl, le_rfl⟩
  | cons p rest =>
    obtain rfl := houter p List.mem_cons_self
    exact ⟨(by simp), rfl, rfl, Nat.le_succ _⟩

theorem Sound.proceed (h : s.Sound start) (hstep : s.proceed u = some t) : t.Sound start := by
  unfold Roaming.proceed at hstep
  split at hstep
  case h_1 q outer hsends =>
    obtain rfl := Option.some.inj hstep
    have hread := h.reading u
    rw [hsends] at hread
    have hheld : held (s.gps.calls u) (.detecting q :: outer) =
        held (s.gps.calls u) (.writing q :: outer) := by
      rw [held_of_not_querying _ (sends_ne (.detecting q) outer (by simp)),
        held_of_not_querying _ (sends_ne (.writing q) outer (by simp))]
      rfl
    refine h.setSends (h.waits hsends) hread ?_ ?_ ?_
    · rw [hsends]
      rfl
    · rw [hsends]
      exact le_rfl
    · rw [hsends, cost, cost, hheld]
  case h_2 q outer hsends =>
    obtain rfl := Option.some.inj hstep
    exact h.detect hsends
  case h_3 outer hsends =>
    split_ifs at hstep
    · obtain rfl := Option.some.inj hstep
      exact h.goOn hsends .requesting _ _ rfl le_rfl (by simp) rfl
    · obtain rfl := Option.some.inj hstep
      exact h.goOn hsends .transmitting _ (s.ignored + 1) rfl (Nat.le_succ _) (by simp) rfl
  case h_4 outer hsends =>
    obtain rfl := Option.some.inj hstep
    refine h.goOn hsends .resending (s.resyncRequests + 1) s.ignored ?_ le_rfl (by simp) rfl
    show s.resyncRequests + 1 + s.ignored = s.resyncRequests + s.ignored + 1
    omega
  case h_5 outer hsends =>
    refine h.enter ?_ ?_ ?_ hstep
    · intro p hp
      rcases List.mem_cons.mp hp with rfl | hrest
      · rfl
      · exact h.waits hsends p hrest
    · rw [hsends]
      rfl
    · rw [hsends]
      exact le_rfl
  case h_6 outer hsends =>
    obtain rfl := Option.some.inj hstep
    have hwaits := h.waits hsends
    obtain ⟨hnot, hhand, hpending, hdepth⟩ := eq_of_waiting hwaits
    refine h.setSends (fun p hp ↦ hwaits p (List.mem_of_mem_tail hp))
      (fun hne ↦ absurd hhand hne) ?_ ?_ ?_
    · rw [hsends, hpending]
      rfl
    · rw [hsends]
      exact hdepth
    · rw [cost_eq_zero _ _ outer hnot hhand]
      exact Nat.zero_le _
  case h_7 => cases hstep
  case h_8 => cases hstep

/-- The return from `gps_ioctl`: what the thread had taken is now what its send has read. -/
theorem Sound.copyToUser (h : s.Sound start) {ok : Bool} (hstep : s.copyToUser u ok = some t) :
    t.Sound start := by
  obtain ⟨gps, hgps, rfl⟩ := Option.map_eq_some_iff.mp hstep
  split
  · next index q outer hcall hsends =>
    -- the send is first in its next phase, so that the quadrant is not counted anew
    have hmoved : (s.setSends u
        (.writing (if ok then quadrantByte q else quadrantNone) :: outer)).Sound start := by
      refine h.setSends (h.waits hsends) ?_ ?_ ?_ ?_
      · have htaken := h.gps.phases u
        rw [hcall] at htaken
        intro hne
        show ∃ x ∈ s.gps.taken, (if ok then quadrantByte q else quadrantNone) = quadrantByte x
        split_ifs with hok
        · exact ⟨q, List.mem_of_getElem? htaken, rfl⟩
        · exact absurd (if_neg hok) hne
      · rw [hsends]
        rfl
      · rw [hsends]
        exact le_rfl
      · have hheld : held (s.gps.calls u) (.querying :: outer) = quadrantByte q := by
          rw [hcall]
          rfl
        rw [hsends]
        split_ifs
        · rw [cost, cost, hheld, held_of_not_querying _ (sends_ne (.writing _) outer (by simp))]
          exact le_rfl
        · rw [cost_eq_zero _ _ _ (sends_ne (.writing quadrantNone) outer (by simp)) rfl]
          exact Nat.zero_le _
    exact hmoved.gpsStep hgps
  · exact h.gpsStep hgps

theorem Sound.step {action : RoamingAction τ} (h : s.Sound start)
    (hstep : s.step action = some t) : t.Sound start := by
  cases action with
  | elapse d =>
    rw [Roaming.step] at hstep
    obtain ⟨gps, hgps, rfl⟩ := Option.map_eq_some_iff.mp hstep
    exact h.gpsStep hgps
  | ioctl u cmd =>
    rw [Roaming.step] at hstep
    split_ifs at hstep
    obtain ⟨gps, hgps, rfl⟩ := Option.map_eq_some_iff.mp hstep
    exact h.gpsStep hgps
  | kernel u random =>
    rw [Roaming.step] at hstep
    obtain ⟨gps, hgps, rfl⟩ := Option.map_eq_some_iff.mp hstep
    exact h.gpsStep hgps
  | copyToUser u ok => exact h.copyToUser hstep
  | send u =>
    rw [Roaming.step] at hstep
    split_ifs at hstep with hfree
    exact h.enter (fun _ hp ↦ absurd hp List.not_mem_nil) (by rw [hfree]; rfl) (Nat.zero_le _) hstep
  | proceed u => exact h.proceed hstep
  | noBuffer u =>
    rw [Roaming.step] at hstep
    split at hstep
    · next outer hsends =>
      obtain rfl := Option.some.inj hstep
      exact h.goOn hsends .transmitting _ _ rfl (Nat.le_succ _) (by simp) rfl
    · cases hstep
  | setRunning on =>
    obtain rfl := Option.some.inj hstep
    exact { h with }

omit [DecidableEq τ] in
theorem sound_create (k : Config) (opened : Bool) (now : ℕ) (initialQuadrant : ℤ)
    (random : UInt32) : (create k τ opened now initialQuadrant random).Sound now where
  gps := Gps.sound_gpsInit now initialQuadrant random
  now := le_rfl
  since := fun u hu ↦ by cases hu
  outer := fun _ _ hp ↦ absurd hp List.not_mem_nil
  reading := fun _ hne ↦ absurd rfl hne
  exchanged := fun q hq ↦ by cases hq
  last := rfl
  changes := rfl
  answered := by simp [create, tally, pending]
  nested := fun _ ↦ le_rfl
  debt := by
    have hnone : tally (cost (create k τ opened now initialQuadrant random).current)
        (fun u ↦ ((create k τ opened now initialQuadrant random).gps.calls u,
          (create k τ opened now initialQuadrant random).sends u)) = 0 :=
      tally_eq_zero_iff.mpr fun u ↦ cost_eq_zero _ _ [] (by simp) rfl
    have hnotBehind : ¬(create k τ opened now initialQuadrant random).Behind :=
      fun hbehind ↦ hbehind.1 rfl
    rw [Roaming.debt, hnone, if_neg hnotBehind]
    exact Nat.zero_le _

/-- Times that keep a distance, from the first to the last. -/
theorem add_length_mul_le {interval last : ℕ} {times : List ℕ} :
    ∀ {first : ℕ}, (first :: times).Pairwise (fun m n ↦ m + interval ≤ n) →
      (∀ m ∈ first :: times, m ≤ last) → first + times.length * interval ≤ last := by
  induction times with
  | nil => exact fun _ hlast ↦ by simpa using hlast
  | cons next rest ih =>
    intro first hspaced hlast
    obtain ⟨hfirst, hrest⟩ := List.pairwise_cons.mp hspaced
    have hnext := hfirst next List.mem_cons_self
    have hle := ih hrest fun m hm ↦ hlast m (List.mem_cons_of_mem _ hm)
    rw [List.length_cons, Nat.succ_mul]
    omega

omit [DecidableEq τ] in
/-- The vehicle moves no more often than the interval allows. -/
theorem Sound.moves_le (h : s.Sound start) :
    s.gps.moves.length * k.moveInterval ≤ s.gps.now - start + k.moveInterval := by
  cases hmoves : s.gps.moves with
  | nil => simp
  | cons first rest =>
    have hspaced := h.gps.spaced
    have hpast := h.gps.past
    have hsince := h.since
    rw [hmoves] at hspaced hpast hsince
    have hfirst := hsince first List.mem_cons_self
    have hle := add_length_mul_le hspaced hpast
    rw [List.length_cons, Nat.succ_mul]
    omega

/-- A move leads to a bounded number of requests. Of every run, however many threads send and
however they interleave, and from any initial quadrant and counter of the module: what is exchanged
was taken from the module; the handler is called once for each change of quadrant in the order of
the exchanges, and each call that finds SPTP running makes one request; the calls, and the depth to
which sends are nested, are bounded by the moves, and the requests by the time that has passed. -/
theorem resyncs_bounded (opened : Bool) (now : ℕ) (initialQuadrant : ℤ) (random : UInt32)
    (hrun : Reaches step Unguarded (create k τ opened now initialQuadrant random) s) :
    (∀ q ∈ s.exchanged, ∃ x ∈ s.gps.taken, q = quadrantByte x) ∧
      s.changes = changesIn s.exchanged ∧
      s.changes = s.resyncRequests + s.ignored + tally pending s.sends ∧
      s.changes ≤ (2 * Fintype.card τ + 1) * s.gps.moves.length ∧
      (∀ u, depth (s.sends u) ≤ s.changes) ∧
      s.resyncRequests * k.moveInterval ≤
        (2 * Fintype.card τ + 1) * (s.gps.now - now + k.moveInterval) := by
  have h : s.Sound now :=
    hrun.invariant (P := Sound now) (fun _ _ _ hsound _ hstep ↦ hsound.step hstep)
      (sound_create k opened now initialQuadrant random)
  have hchanges : s.changes ≤ (2 * Fintype.card τ + 1) * s.gps.moves.length :=
    (Nat.le_add_right _ _).trans h.debt
  refine ⟨fun q hq ↦ (h.exchanged q hq).2 (h.exchanged q hq).1, h.changes, h.answered, hchanges,
    h.nested, ?_⟩
  have hrequests : s.resyncRequests ≤ s.changes := by
    have hanswered := h.answered
    omega
  calc s.resyncRequests * k.moveInterval
      ≤ (2 * Fintype.card τ + 1) * s.gps.moves.length * k.moveInterval :=
        Nat.mul_le_mul_right _ (hrequests.trans hchanges)
    _ = (2 * Fintype.card τ + 1) * (s.gps.moves.length * k.moveInterval) := Nat.mul_assoc _ _ _
    _ ≤ (2 * Fintype.card τ + 1) * (s.gps.now - now + k.moveInterval) :=
        Nat.mul_le_mul_left _ h.moves_le

end Steps

/-- The only thread sends, and again when the vehicle has moved, which makes it send a request from
within that. -/
def movedActions : List (RoamingAction Unit) :=
  [RoamingAction.setRunning true, RoamingAction.send ()] ++
  List.replicate 3 (RoamingAction.kernel () 0) ++ [RoamingAction.copyToUser () true] ++
  List.replicate 3 (RoamingAction.proceed ()) ++
  [RoamingAction.elapse 750, RoamingAction.send ()] ++
  List.replicate 5 (RoamingAction.kernel () 0) ++ [RoamingAction.copyToUser () true] ++
  List.replicate 5 (RoamingAction.proceed ()) ++
  List.replicate 3 (RoamingAction.kernel () 0) ++ [RoamingAction.copyToUser () true]

/-- One move makes one request, while its send is nested in the first. -/
theorem resyncs_bounded_moved :
    ∃ s, run step Unguarded (create Gps.usualConfig Unit true 0 0 0) movedActions = some s ∧
      s.exchanged = [0, 1] ∧ s.sends () = [.writing 1, .transmitting] ∧
      s.resyncRequests * 750 ≤ 3 * (750 + 750) := by
  have hrun : (run step Unguarded (create Gps.usualConfig Unit true 0 0 0) movedActions).map
      (fun s ↦ (s.exchanged, s.sends (), s.gps.now)) =
        some ([0, 1], [.writing 1, .transmitting], 750) := by
    decide +kernel
  obtain ⟨s, hs, hfields⟩ := Option.map_eq_some_iff.mp hrun
  obtain ⟨hexchanged, hfields⟩ := Prod.mk.inj hfields
  obtain ⟨hsends, hnow⟩ := Prod.mk.inj hfields
  obtain ⟨-, -, -, -, -, hrate⟩ := resyncs_bounded true 0 0 0 (reaches_of_run movedActions hs)
  rw [hnow] at hrate
  exact ⟨s, hs, hexchanged, hsends, hrate⟩

end Roaming

end VehicleComm.Network
