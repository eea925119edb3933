import VehicleComm.SmartData.Consumer

/-!
# A consumer that leaves

A consumer, a producer of its unit, and the messages between them, which may be lost but keep their
order. Others may send the producer what they like, its reaper runs at any time, and each message of
the consumer may come with any quadrant.

The last word of a consumer is its disinterest: once the producer has taken one and is done with it,
it has no binding for the consumer, whatever happens afterwards (`disinterest_is_final`). So nothing
is left of a consumer that was destroyed without `abandon`, when its messages have arrived.

The address of the consumer is its own: nobody else sends an interest in the unit from it
(`OnlyConsumer`). Two consumers of one unit on one port would take each other's bindings away.
-/

set_option autoImplicit false
set_option relaxedAutoImplicit false

namespace VehicleComm.SmartData

open Library BindingCache

/-- The consumer, the producer, and the messages of the consumer, true for a disinterest: all that
were sent, those on the way, and those the producer has taken. -/
structure Farewell where
  consumer : Consumer
  producer : Producer
  sent : List Bool
  queue : List Bool
  taken : List Bool

/-- What may happen: the consumer takes a step, its next message is handed to the producer or lost,
the producer takes another step. -/
inductive FarewellAction
  | consumer (action : ConsumerAction)
  | deliver (quadrant : UInt8)
  | lose
  | producer (action : ProducerAction)
deriving DecidableEq

namespace Farewell

def initial (r : Request) : Farewell :=
  ⟨.initial, .initial r.unit bindingLifetimeMinUs bindingLifetimeFactor, [], [], []⟩

/-- A message of the consumer, as the producer's communicator hands it on. -/
def arrival (r : Request) (disinterest : Bool) (quadrant : UInt8) : Arrival :=
  ⟨r.address, quadrant, interestMessage r.unit r.periodUs disinterest⟩

def step (r : Request) (autoRefresh : Bool) (s : Farewell) : FarewellAction → Option Farewell
  | .consumer action =>
    (s.consumer.step autoRefresh action).map fun next ↦
      { s with
        consumer := next.1
        sent := s.sent ++ next.2.toList
        queue := s.queue ++ next.2.toList }
  | .deliver quadrant =>
    match s.queue with
    | [] => none
    | message :: rest =>
      (s.producer.step (.update (arrival r message quadrant))).map fun next ↦
        { s with
          producer := next
          queue := rest
          taken := s.taken ++ [message] }
  | .lose =>
    match s.queue with
    | [] => none
    | _ :: rest => some { s with queue := rest }
  | .producer action => (s.producer.step action).map fun next ↦ { s with producer := next }

/-- Guard of a run in which the consumer is the only one of its unit at its address. -/
def OnlyConsumer (r : Request) (s : Farewell) : FarewellAction → Prop
  | .producer (.update m) => s.producer.handles m = true → m.address ≠ r.address
  | _ => True

instance (r : Request) (s : Farewell) (action : FarewellAction) :
    Decidable (OnlyConsumer r s action) :=
  match action with
  | .producer (.update _) => inferInstanceAs (Decidable (_ → _))
  | .producer .clear | .producer (.apply _) | .producer (.reap _) | .consumer _ | .deliver _
  | .lose => isTrue trivial

/-! ### The bindings of the consumer -/

/-- There is no binding for the consumer. -/
def Unbound (r : Request) (P : Producer) : Prop :=
  ∀ b ∈ P.cache.bindings, b.key ≠ (r.unit, r.address)

/-- The message that the receive thread is in the middle of. -/
def inHand : Handling → Option Arrival
  | .idle => none
  | .clearing m | .applying m => some m

/-- An operation for another address does not bind the consumer. -/
theorem unbound_operate {r : Request} {P : Producer} (h : Unbound r P) (hnamed : P.cache.Named)
    {operation : CacheOperation}
    (hother : ∀ unit address periodUs nowNs,
      operation = .onInterest unit address periodUs nowNs → (unit, address) ≠ (r.unit, r.address)) :
    Unbound r (P.operate operation) := by
  intro b hb
  have hedited : b ∈ P.cache.edited operation := by
    rw [← bindings_apply hnamed operation]
    exact hb
  cases operation with
  | onInterest unit address periodUs nowNs =>
    intro hkey
    rw [edited] at hedited
    rcases key_of_mem_upsert hedited (fun _ hsame ↦ hsame) rfl with hown | ⟨was, hwas, hsame⟩
    · exact hother unit address periodUs nowNs rfl (hown.symm.trans hkey)
    · exact h was hwas (hsame.trans hkey)
  | onDisinterest unit address => exact h b (List.mem_of_mem_filter hedited)
  | clear => exact absurd hedited List.not_mem_nil
  | reap nowNs => exact h b (List.mem_of_mem_filter hedited)

/-- A disinterest of the consumer unbinds it. -/
theorem unbound_disinterest {r : Request} {P : Producer} (hnamed : P.cache.Named) :
    Unbound r (P.operate (.onDisinterest r.unit r.address)) := by
  intro b hb hkey
  have hedited : b ∈ P.cache.edited (.onDisinterest r.unit r.address) := by
    rw [← bindings_apply hnamed]
    exact hb
  have hkept := (List.mem_filter.mp hedited).2
  simp only [Binding.key, Prod.mk.injEq] at hkey
  simp [hkey] at hkept

/-! ### The invariant -/

/-- What holds along a run: the messages are in order, those the producer has taken are among them
and before those on the way, the consumer's message in the producer's hand is the last one taken,
and a producer that has taken a disinterest has no binding, unless it is not done with it. -/
structure Final (r : Request) (s : Farewell) : Prop where
  ordered : s.consumer.Ordered s.sent
  inOrder : (s.taken ++ s.queue).Sublist s.sent
  unit : s.producer.unit = r.unit
  responding : s.producer.cache.Responding
  handed : ∀ m, inHand s.producer.handling = some m → s.producer.handles m = true ∧
    (m.address = r.address → ∃ disinterest, s.taken.getLast? = some disinterest ∧
      m.data = interestMessage r.unit r.periodUs disinterest)
  unbound : true ∈ s.taken → Unbound r s.producer ∨
    ∃ m, inHand s.producer.handling = some m ∧ m.address = r.address

theorem final_initial (r : Request) : (initial r).Final r where
  ordered := Consumer.ordered_initial
  inOrder := List.Sublist.refl _
  unit := rfl
  responding := responding_of_empty rfl rfl
  handed := fun _ hm ↦ by cases hm
  unbound := fun htaken ↦ absurd htaken List.not_mem_nil

/-- What was taken after a disinterest is a disinterest. -/
theorem Final.last_taken {r : Request} {s : Farewell} (h : s.Final r) (htaken : true ∈ s.taken)
    {disinterest : Bool} (hlast : s.taken.getLast? = some disinterest) : disinterest = true := by
  obtain ⟨interests, hsent⟩ := h.ordered.split
  have hsub : s.taken.Sublist s.sent :=
    (List.sublist_append_left s.taken s.queue).trans h.inOrder
  have hpairs : s.sent.Pairwise fun first later ↦ first = true → later = true := by
    rw [hsent]
    refine List.pairwise_append.mpr ⟨?_, ?_, fun first _ later hlater _ ↦ ?_⟩
    · exact List.pairwise_replicate.mpr (Or.inr nofun)
    · exact List.pairwise_replicate.mpr (Or.inr id)
    · exact (List.mem_replicate.mp hlater).2
  obtain ⟨front, hfront⟩ := List.getLast?_eq_some_iff.mp hlast
  rw [hfront] at htaken
  rcases List.mem_append.mp htaken with hbefore | hsame
  · have hordered := hpairs.sublist hsub
    rw [hfront] at hordered
    exact (List.pairwise_append.mp hordered).2.2 true hbefore disinterest
      (List.mem_singleton_self _) rfl
  · exact (List.mem_singleton.mp hsame).symm

section Steps

variable {r : Request} {autoRefresh : Bool} {s t : Farewell}

/-- The next message of the consumer is handed to the producer. -/
theorem Final.deliver (h : s.Final r) {quadrant : UInt8}
    (hstep : s.step r autoRefresh (.deliver quadrant) = some t) : t.Final r := by
  simp only [step] at hstep
  split at hstep
  case h_1 => cases hstep
  case h_2 message rest hqueue =>
    obtain ⟨next, hnext, rfl⟩ := Option.map_eq_some_iff.mp hstep
    have hhandles : s.producer.handles (arrival r message quadrant) = true :=
      handles_interestMessage r.unit r.periodUs message h.unit rfl
    obtain ⟨-, rfl⟩ := Producer.step_update hhandles hnext
    have hinHand : inHand (if s.producer.lastSeenQuad ≠ (arrival r message quadrant).quadrant then
        .clearing (arrival r message quadrant) else .applying (arrival r message quadrant)) =
          some (arrival r message quadrant) := by
      split_ifs <;> rfl
    refine ⟨h.ordered, ?_, h.unit, h.responding, fun m hm ↦ ?_, fun _ ↦ Or.inr ⟨_, hinHand, rfl⟩⟩
    · rw [List.append_assoc, List.singleton_append, ← hqueue]
      exact h.inOrder
    · obtain rfl := Option.some.inj (hinHand.symm.trans hm)
      exact ⟨hhandles, fun _ ↦ ⟨message, List.getLast?_concat, rfl⟩⟩

/-- The receive thread is handed a message of another sender. -/
theorem Final.update (h : s.Final r) {m : Arrival} {next : Producer}
    (hguard : s.producer.handles m = true → m.address ≠ r.address)
    (hstep : s.producer.step (.update m) = some next) :
    ({ s with producer := next } : Farewell).Final r := by
  by_cases hhandles : s.producer.handles m = true
  · obtain ⟨hidle, rfl⟩ := Producer.step_update hhandles hstep
    have hinHand : inHand (if s.producer.lastSeenQuad ≠ m.quadrant then .clearing m
        else .applying m) = some m := by
      split_ifs <;> rfl
    refine ⟨h.ordered, h.inOrder, h.unit, h.responding, fun m' hm' ↦ ?_, fun htaken ↦ ?_⟩
    · obtain rfl := Option.some.inj (hinHand.symm.trans hm')
      exact ⟨hhandles, fun hown ↦ absurd hown (hguard hhandles)⟩
    · rcases h.unbound htaken with hunbound | ⟨m', hm', -⟩
      · exact Or.inl hunbound
      · rw [hidle] at hm'
        cases hm'
  · have hsame : next = s.producer := by
      rw [Producer.step] at hstep
      split at hstep
      · rw [← Option.some.inj hstep, Producer.update, if_neg hhandles]
      · cases hstep
    rw [hsame]
    exact h

/-- The producer is done with a message. -/
theorem Final.apply (h : s.Final r) {nowNs : Int64} {next : Producer}
    (hstep : s.producer.step (.apply nowNs) = some next) :
    ({ s with producer := next } : Farewell).Final r := by
  obtain ⟨m, happlying, rfl⟩ := Producer.step_apply hstep
  have hm : inHand s.producer.handling = some m := by
    rw [happlying]
    rfl
  refine ⟨h.ordered, h.inOrder, h.unit, h.responding.apply _, nofun, fun htaken ↦ Or.inl ?_⟩
  by_cases hown : m.address = r.address
  · -- the message is the last one taken, and that is a disinterest
    obtain ⟨disinterest, hlast, hdata⟩ := (h.handed m hm).2 hown
    obtain rfl := h.last_taken htaken hlast
    have hoperation : s.producer.operation m nowNs = .onDisinterest r.unit r.address := by
      rw [Producer.operation, hdata, isDisinterest_interestMessage, if_pos rfl, h.unit, hown]
    rw [hoperation]
    exact unbound_disinterest h.responding.named
  · rcases h.unbound htaken with hunbound | ⟨m', hm', hown'⟩
    · refine unbound_operate hunbound h.responding.named ?_
      rintro unit address periodUs nowNs' hoperation
      rw [Producer.operation] at hoperation
      split_ifs at hoperation
      injection hoperation with _ haddress
      rw [← haddress]
      exact fun hkey ↦ hown (Prod.mk.inj hkey).2
    · obtain rfl := Option.some.inj (hm.symm.trans hm')
      exact absurd hown' hown

/-- Each step of a run in which the consumer is the only one of its unit at its address. -/
theorem Final.step (h : s.Final r) {action : FarewellAction} (hguard : OnlyConsumer r s action)
    (hstep : s.step r autoRefresh action = some t) : t.Final r := by
  cases action with
  | consumer action =>
    obtain ⟨⟨next, message⟩, hnext, rfl⟩ := Option.map_eq_some_iff.mp hstep
    refine ⟨h.ordered.step hnext, ?_, h.unit, h.responding, h.handed, h.unbound⟩
    rw [← List.append_assoc]
    exact h.inOrder.append (List.Sublist.refl _)
  | deliver quadrant => exact h.deliver hstep
  | lose =>
    simp only [Farewell.step] at hstep
    split at hstep
    case h_1 => cases hstep
    case h_2 message rest hqueue =>
      obtain rfl := Option.some.inj hstep
      refine ⟨h.ordered, List.Sublist.trans ?_ h.inOrder, h.unit, h.responding, h.handed,
        h.unbound⟩
      rw [hqueue]
      exact (List.Sublist.refl _).append (List.sublist_cons_self _ _)
  | producer action =>
    obtain ⟨next, hnext, rfl⟩ := Option.map_eq_some_iff.mp hstep
    cases action with
    | update m => exact h.update hguard hnext
    | clear =>
      obtain ⟨m, hclearing, rfl⟩ := Producer.step_clear hnext
      refine ⟨h.ordered, h.inOrder, h.unit, h.responding.apply .clear, fun m' hm' ↦ ?_,
        fun _ ↦ Or.inl fun b hb ↦ absurd hb List.not_mem_nil⟩
      refine h.handed m' ?_
      rw [hclearing]
      exact hm'
    | apply nowNs => exact h.apply hnext
    | reap nowNs =>
      obtain rfl := Option.some.inj hnext
      refine ⟨h.ordered, h.inOrder, h.unit, h.responding.apply (.reap nowNs), h.handed,
        fun htaken ↦ ?_⟩
      refine (h.unbound htaken).imp_left fun hunbound ↦ ?_
      exact unbound_operate hunbound h.responding.named nofun

end Steps

/-- The farewell of a consumer. Assumes: the producer hears of no other consumer of the unit at the
same address. The consumer says any number of interests and then at most three disinterests, at
least one when it was destroyed without `abandon`; what the producer has taken and what is on its
way is some of that, in order. Once the producer has taken a disinterest and has no message of the
consumer in hand, it has no binding for the consumer. -/
theorem disinterest_is_final {r : Request} {autoRefresh : Bool} {s : Farewell}
    (hrun : Reaches (step r autoRefresh) (OnlyConsumer r) (initial r) s) :
    (∃ interests disinterests, disinterests ≤ 3 ∧
        s.sent = List.replicate interests false ++ List.replicate disinterests true ∧
        (s.consumer.owner = .gone → s.consumer.abandoned = false → 0 < disinterests)) ∧
      (s.taken ++ s.queue).Sublist s.sent ∧
      (true ∈ s.taken → (∀ m, inHand s.producer.handling = some m → m.address ≠ r.address) →
        Unbound r s.producer) := by
  have h : s.Final r :=
    hrun.invariant (fun _ _ _ hfinal hguard hstep ↦ hfinal.step hguard hstep) (final_initial r)
  refine ⟨?_, h.inOrder, fun htaken hfree ↦ ?_⟩
  · obtain ⟨interests, hsent⟩ := h.ordered.split
    refine ⟨interests, s.sent.count true, h.ordered.count_le, hsent, fun hgone hkept ↦ ?_⟩
    have howner := h.ordered.ownerOk
    rw [Consumer.OwnerOk, hgone] at howner
    exact howner.2.2 hkept
  · rcases h.unbound htaken with hunbound | ⟨m, hm, hown⟩
    · exact hunbound
    · exact absurd hown (hfree m hm)

/-- A consumer that announces its interest three times, has it taken, and is destroyed. Two of its
interests are lost. -/
def destroyedActions : List FarewellAction :=
  List.replicate 5 (FarewellAction.consumer (.own 0)) ++
  [FarewellAction.deliver 2, FarewellAction.producer .clear, FarewellAction.producer (.apply 0),
    FarewellAction.consumer (.call .destroy), FarewellAction.consumer (.own 0),
    FarewellAction.consumer (.own 0), FarewellAction.lose, FarewellAction.lose,
    FarewellAction.deliver 2, FarewellAction.producer (.apply 1)]

/-- Its disinterest unbinds it. -/
theorem disinterest_is_final_destroyed :
    ∃ s, run (step ⟨1, ⟨.internal, 8⟩, 20, by decide⟩ false)
        (OnlyConsumer ⟨1, ⟨.internal, 8⟩, 20, by decide⟩)
        (initial ⟨1, ⟨.internal, 8⟩, 20, by decide⟩) destroyedActions = some s ∧
      s.taken = [false, true] ∧ Unbound ⟨1, ⟨.internal, 8⟩, 20, by decide⟩ s.producer := by
  have hrun : (run (step ⟨1, ⟨.internal, 8⟩, 20, by decide⟩ false)
      (OnlyConsumer ⟨1, ⟨.internal, 8⟩, 20, by decide⟩)
      (initial ⟨1, ⟨.internal, 8⟩, 20, by decide⟩) destroyedActions).map
        (fun s ↦ (s.taken, s.producer.handling)) = some ([false, true], .idle) := by
    decide +kernel
  obtain ⟨s, hs, hfields⟩ := Option.map_eq_some_iff.mp hrun
  obtain ⟨htaken, hhandling⟩ := Prod.mk.inj hfields
  refine ⟨s, hs, htaken, (disinterest_is_final (reaches_of_run _ hs)).2.2 ?_ fun m hm ↦ ?_⟩
  · rw [htaken]
    exact List.mem_cons_of_mem _ (List.mem_singleton_self _)
  · rw [hhandling] at hm
    cases hm

end Farewell

end VehicleComm.SmartData
