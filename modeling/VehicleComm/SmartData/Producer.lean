import VehicleComm.Library.GuardedRun
import VehicleComm.SmartData.BindingCache

/-!
# The producer's side of a smart datum

`SmartData::update` of a producer, which the receive thread calls for each message, over the cache
of interests and its reaper. An interest message whose quadrant differs from that of the last one
clears the cache; between the exchange of the quadrant, the clearing and the operation on the cache
the reaper may run (`Handling`).

The quadrant of a message that came over the network is what the sending gateway wrote. A message
from the ring carries whatever its buffer had in that byte, since `send_via_nic` does not write it
and the shared memory NIC has no function that does; the sequence of quadrants a producer sees is
therefore arbitrary.

`expected` is the record of the bindings that should be there: it is written by the interests, the
disinterests and the reaper, not by the clearing, and read by no step.
-/

set_option autoImplicit false
set_option relaxedAutoImplicit false

namespace VehicleComm.SmartData

open Library Network Channel

/-- Where the receive thread is in `update`. -/
inductive Handling
  | idle
  | clearing (m : Arrival)
  | applying (m : Arrival)
deriving DecidableEq

/-- A `SmartData` in the role of a producer. -/
structure Producer where
  unit : UInt32
  lastSeenQuad : UInt8
  cache : BindingCache
  handling : Handling
  expected : Reference

def Producer.initial (unit : UInt32) (lifetimeMinUs : UInt64)
    (lifetimeFactor : UInt32) : Producer :=
  ⟨unit, 0xFF, .initial lifetimeMinUs lifetimeFactor, .idle, fun _ ↦ none⟩

/-- One atomic step: the receive thread is handed a message, clears the cache, operates on it; the
reaper makes a pass. -/
inductive ProducerAction
  | update (m : Arrival)
  | clear
  | apply (nowNs : Int64)
  | reap (nowNs : Int64)
deriving DecidableEq

namespace Producer

/-- The messages that `update` of a producer does not delete at once. -/
def handles (P : Producer) (m : Arrival) : Bool :=
  smartHeaderSize ≤ m.data.length && headerUnit m.data = P.unit && isInterest m.data

def operation (P : Producer) (m : Arrival) (nowNs : Int64) : CacheOperation :=
  if isDisinterest m.data then .onDisinterest P.unit m.address
  else .onInterest P.unit m.address (interestPeriod m.data) nowNs

def operate (P : Producer) (operation : CacheOperation) : Producer :=
  { P with
    cache := P.cache.apply operation
    expected := P.expected.apply P.cache.lifetimeMinUs P.cache.lifetimeFactor operation }

/-- `update` up to the exchange of `_last_seen_quad`. -/
def update (P : Producer) (m : Arrival) : Producer :=
  if P.handles m then
    { P with
      lastSeenQuad := m.quadrant
      handling := if P.lastSeenQuad ≠ m.quadrant then .clearing m else .applying m }
  else P

def step (P : Producer) : ProducerAction → Option Producer
  | .update m =>
    match P.handling with
    | .idle => some (P.update m)
    | _ => none
  | .clear =>
    match P.handling with
    | .clearing m => some { P with cache := P.cache.clear, handling := .applying m }
    | _ => none
  | .apply nowNs =>
    match P.handling with
    | .applying m => some { P.operate (P.operation m nowNs) with handling := .idle }
    | _ => none
  | .reap nowNs => some (P.operate (.reap nowNs))

/-- Every interest message carries the quadrant of the last one, or finds no binding. -/
def SameQuadrant (P : Producer) : ProducerAction → Prop
  | .update m => P.handles m → m.quadrant = P.lastSeenQuad ∨ P.cache.bindings = []
  | _ => True

instance (P : Producer) (action : ProducerAction) : Decidable (P.SameQuadrant action) := by
  cases action with
  | update m => exact inferInstanceAs (Decidable (_ → _))
  | clear => exact isTrue trivial
  | apply nowNs => exact isTrue trivial
  | reap nowNs => exact isTrue trivial

/-! ### The bindings under that condition -/

/-- What holds between any two steps of a run under `SameQuadrant`. -/
structure Kept (P : Producer) : Prop where
  responding : P.cache.Responding
  agrees : P.cache.Agrees P.expected
  clearing : ∀ m, P.handling = .clearing m → P.cache.bindings = []

theorem kept_initial (unit : UInt32) (lifetimeMinUs : UInt64) (lifetimeFactor : UInt32) :
    (initial unit lifetimeMinUs lifetimeFactor).Kept where
  responding := BindingCache.responding_of_empty rfl rfl
  agrees := fun _ ↦ rfl
  clearing := fun m h ↦ by cases h

theorem Kept.update {P : Producer} (h : P.Kept) {m : Arrival}
    (hguard : P.SameQuadrant (.update m)) : (P.update m).Kept := by
  by_cases hhandles : P.handles m
  · rw [Producer.update, if_pos hhandles]
    refine ⟨h.responding, h.agrees, fun m' hclearing ↦ ?_⟩
    rcases hguard hhandles with hsame | hempty
    · have happlying : Handling.applying m = .clearing m' := by
        rw [← hclearing, if_neg (not_not.mpr hsame.symm)]
      cases happlying
    · exact hempty
  · rw [Producer.update, if_neg hhandles]
    exact h

/-- The clearing finds no binding. -/
theorem Kept.clear {P : Producer} (h : P.Kept) {m : Arrival}
    (hclearing : P.handling = .clearing m) :
    { P with cache := P.cache.clear, handling := .applying m }.Kept where
  responding := h.responding.apply .clear
  agrees := by
    intro entry
    have hempty := h.agrees entry
    rw [h.clearing m hclearing] at hempty
    exact hempty
  clearing := fun m' hclearing' ↦ by cases hclearing'

theorem Kept.operate {P : Producer} (h : P.Kept) (operation : CacheOperation) :
    (P.cache.apply operation).Responding ∧
      (P.cache.apply operation).Agrees
        (P.expected.apply P.cache.lifetimeMinUs P.cache.lifetimeFactor operation) :=
  ⟨h.responding.apply operation, h.agrees.apply h.responding operation⟩

theorem Kept.step {P P' : Producer} (h : P.Kept) {action : ProducerAction}
    (hguard : P.SameQuadrant action) (hstep : P.step action = some P') : P'.Kept := by
  cases action with
  | update m =>
    rw [Producer.step] at hstep
    split at hstep
    · rename_i hidle
      obtain rfl := Option.some.inj hstep
      exact h.update hguard
    · cases hstep
  | clear =>
    rw [Producer.step] at hstep
    split at hstep
    · rename_i m hclearing
      obtain rfl := Option.some.inj hstep
      exact h.clear hclearing
    · cases hstep
  | apply nowNs =>
    rw [Producer.step] at hstep
    split at hstep
    · rename_i m happlying
      obtain rfl := Option.some.inj hstep
      obtain ⟨hresponding, hagrees⟩ := h.operate (P.operation m nowNs)
      exact ⟨hresponding, hagrees, fun m' hclearing ↦ (by cases hclearing)⟩
    · cases hstep
  | reap nowNs =>
    obtain rfl := Option.some.inj hstep
    obtain ⟨hresponding, hagrees⟩ := h.operate (.reap nowNs)
    refine ⟨hresponding, hagrees, fun m hclearing ↦ ?_⟩
    show (P.cache.apply (.reap nowNs)).bindings = []
    rw [BindingCache.bindings_apply h.responding.named, BindingCache.edited,
      h.clearing m hclearing, List.filter_nil]

/-- Assumes: a run in which every interest message carries the quadrant of the last one or finds no
binding. The bindings are, at every moment, the interests that no disinterest of the same address
and no pass of the reaper past the end of their lease has followed. -/
theorem bindings_kept {unit : UInt32} {lifetimeMinUs : UInt64} {lifetimeFactor : UInt32}
    {P : Producer}
    (hrun : Reaches step SameQuadrant (initial unit lifetimeMinUs lifetimeFactor) P)
    (address : Endpoint) (periodUs : UInt64) (expiryNs : Int64) :
    ⟨P.unit, address, periodUs, expiryNs⟩ ∈ P.cache.bindings ↔
      P.expected (P.unit, address) = some (periodUs, expiryNs) := by
  have h := hrun.invariant (P := Kept) (fun _ _ _ h hguard hstep ↦ h.step hguard hstep)
    (kept_initial unit lifetimeMinUs lifetimeFactor)
  exact h.agrees.mem_iff h.responding.unique P.unit address periodUs expiryNs

def neighbour : Endpoint := ⟨⟨[2, 0, 0, 0, 0, 1], rfl⟩, 7⟩

/-- An interest of a neighbour, whose gateway wrote the quadrant, and one of a component of the same
vehicle, whose frame has a zero in that byte. -/
def mixedActions : List ProducerAction :=
  [.update ⟨neighbour, 1, [0, 1, 0, 0, 0, 10, 0, 0, 0, 0, 0, 0, 0, 0]⟩, .clear, .apply 0,
    .update ⟨⟨.internal, 8⟩, 0, [0, 1, 0, 0, 0, 20, 0, 0, 0, 0, 0, 0, 0, 0]⟩, .clear, .apply 0]

/-- The interest of the component removes the binding of the neighbour. -/
theorem neighbour_lost :
    ∃ P, Reaches step Unguarded (initial 1 3500000 4) P ∧
      P.expected (1, neighbour) = some (10, 3500000000) ∧
      ∀ b ∈ P.cache.bindings, b.address ≠ neighbour := by
  have hrun : (run step Unguarded (initial 1 3500000 4) mixedActions).map (fun P ↦
      (P.expected (1, neighbour), P.cache.bindings)) =
        some (some (10, 3500000000), [⟨1, ⟨.internal, 8⟩, 20, 3500000000⟩]) := by decide +kernel
  obtain ⟨P, hP, hboth⟩ := Option.map_eq_some_iff.mp hrun
  obtain ⟨hexpected, hbindings⟩ := Prod.mk.inj hboth
  refine ⟨P, reaches_of_run mixedActions hP, hexpected, ?_⟩
  rw [hbindings]
  decide +kernel

def neighbourActions : List ProducerAction :=
  [.update ⟨neighbour, 1, [0, 1, 0, 0, 0, 10, 0, 0, 0, 0, 0, 0, 0, 0]⟩, .clear, .apply 0,
    .update ⟨⟨.internal, 8⟩, 1, [0, 1, 0, 0, 0, 20, 0, 0, 0, 0, 0, 0, 0, 0]⟩, .apply 0]

theorem bindings_kept_neighbourActions :
    ∃ P, run step SameQuadrant (initial 1 3500000 4) neighbourActions = some P ∧
      ⟨P.unit, neighbour, 10, 3500000000⟩ ∈ P.cache.bindings := by
  have hrun : (run step SameQuadrant (initial 1 3500000 4) neighbourActions).map (fun P ↦
      P.expected (P.unit, neighbour)) = some (some (10, 3500000000)) := by decide +kernel
  obtain ⟨P, hP, hexpected⟩ := Option.map_eq_some_iff.mp hrun
  exact ⟨P, hP, (bindings_kept (reaches_of_run neighbourActions hP) neighbour 10 3500000000).mpr
    hexpected⟩

end Producer

end VehicleComm.SmartData
