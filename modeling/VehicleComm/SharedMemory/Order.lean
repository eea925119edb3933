import VehicleComm.Library.CommonOrder
import VehicleComm.SharedMemory.Delivery

/-!
# One order for everybody

The frames of the ring have one order, that of their sequence numbers, and every receive handler
gets those that are for its process in it, without a gap: at any time a handler has been called with
the first frames addressed to its process and with nothing else (`broadcast_in_order`). So when one
process has got a frame before another one, every process that both are for gets the first one
before the second.

A frame is addressed to every process but its writer when a component wrote it, and to every process
when the gateway did (`addressed`), which reads its own frames back (`delivery_set`). The runs are
those in which all processes attach before the first write, none closes, and every write comes from
`engine_send` (`Broadcasts`), with fewer than `2 ^ 64` frames, the range of `next_write_seq`. The
threads interleave at every operation on a semaphore.
-/

set_option autoImplicit false
set_option relaxedAutoImplicit false

namespace VehicleComm.SharedMemory

open Library

variable {m : ℕ} {τ : Type*}

/-- The frames for process `i` among some writes: those of the others, and its own if it is the
gateway. -/
def addressed (i : Fin (m + 1)) (written : List (Fin (m + 1) × SlotRecord)) : List Delivery :=
  (written.mapIdx fun seq write ↦ (seq, write)).filterMap fun numbered ↦
    if i ≠ numbered.2.1 ∨ numbered.2.1 = gatewaySlot then
      some ⟨numbered.1, numbered.2.2.bytes⟩
    else none

@[simp] theorem addressed_nil (i : Fin (m + 1)) : addressed i [] = [] := rfl

theorem addressed_concat (i : Fin (m + 1)) (written : List (Fin (m + 1) × SlotRecord))
    (write : Fin (m + 1) × SlotRecord) :
    addressed i (written ++ [write]) = addressed i written ++
      if i ≠ write.1 ∨ write.1 = gatewaySlot then [⟨written.length, write.2.bytes⟩] else [] := by
  rw [addressed, List.mapIdx_concat, List.filterMap_append, addressed, List.filterMap_cons,
    List.filterMap_nil]
  split_ifs <;> rfl

/-- Later writes are addressed after earlier ones. -/
theorem addressed_mono (i : Fin (m + 1)) {written later : List (Fin (m + 1) × SlotRecord)}
    (hgrown : written <+: later) : addressed i written <+: addressed i later := by
  obtain ⟨rest, rfl⟩ := hgrown
  induction rest using List.reverseRecOn with
  | nil => rw [List.append_nil]
  | append_singleton rest write ih =>
    rw [← List.append_assoc, addressed_concat]
    exact ih.trans (List.prefix_append _ _)

/-- The numbers of the frames for a process are among those written. -/
theorem seq_lt_of_mem_addressed {i : Fin (m + 1)} {written : List (Fin (m + 1) × SlotRecord)}
    {delivery : Delivery} (hmem : delivery ∈ addressed i written) :
    delivery.seq < written.length := by
  induction written using List.reverseRecOn with
  | nil => cases hmem
  | append_singleton written write ih =>
    rw [List.length_append, List.length_singleton]
    rw [addressed_concat] at hmem
    rcases List.mem_append.mp hmem with hold | hnew
    · exact (ih hold).trans (Nat.lt_succ_self _)
    · split_ifs at hnew
      · rw [List.mem_singleton.mp hnew]
        exact Nat.lt_succ_self _
      · cases hnew

/-- The frames for a process come by increasing sequence numbers. -/
theorem pairwise_addressed (i : Fin (m + 1)) (written : List (Fin (m + 1) × SlotRecord)) :
    (addressed i written).Pairwise fun first later ↦ first.seq < later.seq := by
  induction written using List.reverseRecOn with
  | nil => exact List.Pairwise.nil
  | append_singleton written write ih =>
    rw [addressed_concat]
    refine List.pairwise_append.mpr ⟨ih, ?_, fun first hfirst later hlater ↦ ?_⟩
    · split_ifs
      · exact List.pairwise_singleton _ _
      · exact List.Pairwise.nil
    · split_ifs at hlater
      · rw [List.mem_singleton.mp hlater]
        exact seq_lt_of_mem_addressed hfirst
      · cases hlater

section Runs

variable [DecidableEq τ] [Fintype τ] {s : System m τ}

/-- What a process reads out of the writes of `engine_send` are the frames for it. -/
theorem flatMap_readOut (hsize : m < maxComponents) (i : Fin (m + 1))
    {written : List (Fin (m + 1) × SlotRecord)}
    (hsent : ∀ write ∈ written, EngineRecord write.1 write.2) :
    ((numbered written).flatMap fun seen ↦ readOut i seen.1 seen.2) = addressed i written := by
  induction written using List.reverseRecOn with
  | nil => rfl
  | append_singleton written write ih =>
    have hlast := hsent write (List.mem_append_right _ (List.mem_singleton_self write))
    rw [numbered_concat, List.flatMap_append, List.flatMap_singleton, addressed_concat,
      readOut_of_engineRecord hsize hlast,
      ih fun other hother ↦ hsent other (List.mem_append_left _ hother)]

/-- The handler of a process has got, with what is on its way there, the frames for it among those
it has consumed. -/
theorem handled_append_inTransit (hsize : m < maxComponents)
    (hrun : Reaches step Broadcasts (create m τ) s) (hbound : s.history.written.length < 2 ^ 64)
    (i : Fin (m + 1)) : s.history.handled i ++ inTransit (s.readers i) =
      addressed i (s.history.written.take (s.region.readSeq i)) := by
  have h := Steady.accounted (hrun.mono fun _ _ hguard ↦ hguard.1) hbound
  have hsent := allSentByEngine_of_reaches (hrun.mono fun _ _ hguard ↦ hguard.2)
  rw [carried_of_reaches hrun i, h.consumed i]
  exact flatMap_readOut hsize i fun write hwrite ↦ hsent.1 write (List.mem_of_mem_take hwrite)

/-- The ring is a broadcast in one order. Assumes: a run in which all processes attach first, none
closes and all writes come from `engine_send`, with fewer than `2 ^ 64` frames. A handler has been
called with the first frames for its process, and with nothing else; a frame of the gateway is for
the gateway too. When a process has got one frame and later another, a process that both are for and
that has got the later one has got the first one before it. -/
theorem broadcast_in_order (hsize : m < maxComponents)
    (hrun : Reaches step Broadcasts (create m τ) s) (hbound : s.history.written.length < 2 ^ 64) :
    (∀ i, s.history.handled i <+: addressed i s.history.written) ∧
      ∀ i j first later, [first, later].Sublist (s.history.handled i) →
        first ∈ addressed j s.history.written → later ∈ s.history.handled j →
          [first, later].Sublist (s.history.handled j) := by
  have hheard : ∀ i, s.history.handled i <+: addressed i s.history.written := by
    intro i
    have hall := handled_append_inTransit hsize hrun hbound i
    have hstart := List.prefix_append (s.history.handled i) (inTransit (s.readers i))
    rw [hall] at hstart
    exact hstart.trans (addressed_mono i (List.take_prefix _ _))
  refine ⟨hheard, fun i j first later hboth hfor hgot ↦ ?_⟩
  have hlt := key_lt_of_pair_sublist
    ((pairwise_addressed i s.history.written).sublist (hheard i).sublist) hboth
  exact pair_sublist_of_prefix (pairwise_addressed j s.history.written) (hheard j) hfor hgot hlt

end Runs

/-- The gateway and two components attach, one component writes two frames, and all others take
both out of the ring. -/
def twoFramesActions : List (Action 2 Unit) :=
  List.replicate 3 (Action.engineInit 0) ++ List.replicate 3 (Action.engineInit 1) ++
  List.replicate 3 (Action.engineInit 2) ++ [Action.startReceiving 0, Action.startReceiving 2] ++
  Action.callWriteSlot () 1 (threeBytes 1 (deliverToComponents ||| deliverToGateway)) ::
    List.replicate 7 (Action.writeSlot ()) ++
  Action.callWriteSlot () 1 (threeBytes 1 (deliverToComponents ||| deliverToGateway)) ::
    List.replicate 7 (Action.writeSlot ()) ++
  List.replicate 14 (Action.receive 0) ++ List.replicate 14 (Action.receive 2)

/-- The gateway has got both frames, so that the component has got them in the same order. -/
theorem broadcast_in_order_twoFrames :
    ∃ s, run step Broadcasts (create 2 Unit) twoFramesActions = some s ∧
      [⟨0, [1, 2, 3]⟩, ⟨1, [1, 2, 3]⟩].Sublist (s.history.handled 2) := by
  have hrun : (run step Broadcasts (create 2 Unit) twoFramesActions).map (fun s ↦
      (s.history.written, s.history.handled)) = some
        (List.replicate 2 (1, ⟨1, deliverToComponents ||| deliverToGateway, 3, [1, 2, 3]⟩),
          Function.update (fun _ ↦ [⟨0, [1, 2, 3]⟩, ⟨1, [1, 2, 3]⟩]) 1 []) := by
    decide +kernel
  obtain ⟨s, hs, hfields⟩ := Option.map_eq_some_iff.mp hrun
  obtain ⟨hwritten, hhandled⟩ := Prod.mk.inj hfields
  obtain ⟨-, horder⟩ := broadcast_in_order (by decide) (reaches_of_run _ hs)
    (by rw [hwritten]; decide)
  refine ⟨s, hs, horder 0 2 _ _ ?_ ?_ ?_⟩
  · rw [hhandled]
    exact List.Sublist.refl _
  · rw [hwritten]
    decide
  · rw [hhandled]
    exact List.mem_cons_of_mem _ (List.mem_singleton_self _)

end VehicleComm.SharedMemory
