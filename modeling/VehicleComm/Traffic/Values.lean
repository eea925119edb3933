import VehicleComm.SmartData.LiveValue
import VehicleComm.Traffic.Utterances

/-!
# Where a value comes from

In a fleet in which every response of a unit that an application sends is one of `respond`, with a
value that its component produced, a consumer of the unit shows no other value: the bytes are those
that a component produced, of the vehicle that the address of the message names, and a fresh value
is not older than three periods (`shows_what_was_produced`). The consumer handles any of the
messages that its process gets, in any order and any number of times.

Within the vehicle of the consumer an address is the internal one, so a value of the ring is one of
some component of the same vehicle. The MAC addresses of the vehicles are different from the
internal one; two vehicles may share one here, and then a value is from a vehicle of that address.

`expired` multiplies the period by 3000 in 64 bits and subtracts times as signed integers. The part
about freshness is about periods below `2 ^ 63 / 3000` microseconds and readings that are not
negative; with a longer period the product wraps, and a value just handled may count as expired.
-/

set_option autoImplicit false
set_option relaxedAutoImplicit false

namespace VehicleComm.Traffic

open Library Network Channel SharedMemory SmartData

variable {V : Type*} {m : ℕ} {τ : Type*} {mac : V → Address} {F : Fleet V m τ} {k : ℕ}
  {unit : UInt32} {Produced : V → Fin (m + 1) → Value k → Prop}

def Responds (unit : UInt32) (Produced : V → Fin (m + 1) → Value k → Prop) (v : V)
    (p : Fin (m + 1)) (data : List UInt8) : Prop :=
  ∃ value, Produced v p value ∧ data = responseMessage unit value

/-- The value of a response is the one that is read of it. -/
theorem responds_iff {v : V} {p : Fin (m + 1)} {data : List UInt8} :
    Responds unit Produced v p data ↔
      ∃ hlong, Produced v p (responseValue data hlong) ∧
        data = responseMessage unit (responseValue data hlong) := by
  constructor
  · rintro ⟨value, hproduced, hdata⟩
    have hlong : smartHeaderSize + k ≤ data.length :=
      hdata ▸ (length_responseMessage unit value).ge
    refine ⟨hlong, ?_⟩
    rw [responseValue_responseMessage unit value hdata hlong]
    exact ⟨hproduced, hdata⟩
  · rintro ⟨hlong, hvalue⟩
    exact ⟨_, hvalue⟩

instance (unit : UInt32) (Produced : V → Fin (m + 1) → Value k → Prop)
    [∀ v p value, Decidable (Produced v p value)] (v : V) (p : Fin (m + 1)) (data : List UInt8) :
    Decidable (Responds unit Produced v p data) :=
  decidable_of_iff _ responds_iff.symm

/-- Guard of a run in which all processes send as responses of the unit what they produced. -/
def Answers (unit : UInt32) (Produced : V → Fin (m + 1) → Value k → Prop) :
    Fleet V m τ → FleetAction V m τ → Prop :=
  Utters (isResponse unit) (Responds unit Produced)

instance (unit : UInt32) (Produced : V → Fin (m + 1) → Value k → Prop)
    [∀ v p value, Decidable (Produced v p value)] (F : Fleet V m τ) (action : FleetAction V m τ) :
    Decidable (Answers unit Produced F action) :=
  inferInstanceAs (Decidable (Utters _ _ F action))

/-- The value of a message that is cut to what there is room for is a whole one. -/
theorem responseValue_take {value : Value k} {data : List UInt8} {capacity : ℕ}
    (hdata : data = (responseMessage unit value).take capacity)
    (hlong : smartHeaderSize + k ≤ data.length) : responseValue data hlong = value := by
  refine responseValue_responseMessage unit value ?_ hlong
  rw [hdata, List.length_take, length_responseMessage] at hlong
  rw [hdata, List.take_of_length_le]
  rw [length_responseMessage]
  exact (le_min_iff.mp hlong).1

/-- The address of a message that a process of vehicle `v` gets names vehicle `w`. -/
def Names (mac : V → Address) (v w : V) (fromAddress : List UInt8) : Prop :=
  fromAddress = (mac w).octets ∨ fromAddress = Address.internal.octets ∧ w = v

/-- The address of a packet names the vehicle that sent it. -/
theorem Route.names (mac : V → Address) (v : V) (route : Route V) :
    Names mac v (route.sender v) (route.address mac).octets := by
  cases route with
  | ring found => exact Or.inr ⟨rfl, rfl⟩
  | segment w reading => exact Or.inl rfl

/-- What a consumer shows was produced. Assumes: no raw interface has the internal address, the
processes send as responses of the unit only what they produced, and the consumer has handled any of
the messages that its process got. Each key that it counts is that of a vehicle with a process that
produced a value, and the value it has was produced by a process of the vehicle that the message
with it was from. When three periods, in nanoseconds, and the readings of the clock are in the range
of `int64_t` from zero on, the value is fresh if and only if that message was handled no more than
three periods ago. -/
theorem shows_what_was_produced [DecidableEq V] [DecidableEq τ] (hmac : ∀ w, mac w ≠ .internal)
    {buffers : V → Fin (m + 1) → Medium → Fin bufferSize → Buffer}
    (hrun : Reaches Fleet.step (Answers unit Produced) (Fleet.create mac buffers) F) {v : V}
    {p : Fin (m + 1)} {heard : List Handled}
    (hheard : ∀ e ∈ heard, ∃ n held, F.Gets v p n held maxSize e.message)
    {startNs : Int64} {shown : LiveValue k} (hshown : shown = .after unit startNs heard) :
    (∀ key ∈ shown.producers, ∃ w q value, Produced w q value ∧
      (key = macKey (mac w) ∨ key = macKey .internal ∧ w = v)) ∧
    (shown.hasValue = true → ∃ e ∈ heard, ∃ w q, Produced w q shown.lastValue ∧
      Names mac v w e.message.fromAddress ∧ shown.lastValueNs = e.valueNs) ∧
    ∀ periodUs nowNs, 3000 * periodUs.toNat < 2 ^ 63 → 0 ≤ nowNs.toInt →
      0 ≤ shown.lastValueNs.toInt →
        (shown.fresh periodUs nowNs = true ↔ shown.hasValue = true ∧
          nowNs.toInt - shown.lastValueNs.toInt ≤ 3000 * periodUs.toNat) := by
  have hspoken : F.Spoken (isResponse unit) (Responds unit Produced) :=
    hrun.invariant (fun _ _ _ h hguard hstep ↦ h.step hguard hstep)
      (Fleet.spoken_create _ _ mac buffers)
  have hsound : F.Sound mac False :=
    Fleet.sound_of_reaches (fun _ _ _ hfalse ↦ hfalse.elim) hrun
  have hsummary : shown.Summary unit heard := hshown ▸ LiveValue.summary_after unit startNs heard
  -- what is cut from a response behind its header was one
  have hvoice : ∀ e ∈ heard, isResponse unit e.message.data = true →
      ∃ w q, ∃ value : Value k, Produced w q value ∧ Names mac v w e.message.fromAddress ∧
        e.message.data = (responseMessage unit value).take maxSize := by
    intro e he hresponse
    obtain ⟨n, held, hgets⟩ := hheard e he
    obtain ⟨request, route, hconveys, hvoiced⟩ := hspoken.gets hsound hmac hgets
    have hmessage := (hsound.gets_of_route hgets hconveys).1
    have hdata : e.message.data = request.data.take maxSize := congrArg Message.data hmessage
    have haddress : e.message.fromAddress = (route.address mac).octets :=
      congrArg Message.fromAddress hmessage
    rw [hdata, isResponse_take unit (by decide)] at hresponse
    obtain ⟨q, value, hproduced, hrequest⟩ := hvoiced hresponse
    exact ⟨route.sender v, q, value, hproduced, haddress ▸ route.names mac v,
      by rw [hdata, hrequest]⟩
  refine ⟨fun key hkey ↦ ?_, fun hhas ↦ ?_, fun periodUs nowNs hperiod hnow hlast ↦
    LiveValue.fresh_iff hperiod hnow hlast⟩
  · obtain ⟨e, he, hresponse, rfl⟩ := (hsummary.producers key).mp hkey
    obtain ⟨w, q, value, hproduced, hnames, -⟩ := hvoice e he hresponse
    refine ⟨w, q, value, hproduced, hnames.imp (fun hsame ↦ ?_) (And.imp_left fun hsame ↦ ?_)⟩
    · rw [originKey, hsame, macKey]
    · rw [originKey, hsame, macKey]
  · have hlatest := hsummary.latest
    rw [LiveValue.Latest, if_pos hhas] at hlatest
    obtain ⟨front, e, back, rfl, hresponse, ⟨hlong, hvalue⟩, htime, -⟩ := hlatest
    have he : e ∈ front ++ e :: back := List.mem_append_right _ List.mem_cons_self
    obtain ⟨w, q, value, hproduced, hnames, hdata⟩ := hvoice e he hresponse
    rw [hvalue, responseValue_take hdata hlong]
    exact ⟨e, he, w, q, hproduced, hnames, htime⟩

def speed : Value 8 := ⟨[1, 2, 3, 4, 5, 6, 7, 8], rfl⟩

def OnlySpeed (v : Bool) (p : Fin 3) (value : Value 8) : Prop :=
  v = false ∧ p = sender ∧ value = speed

instance (v : Bool) (p : Fin 3) (value : Value 8) : Decidable (OnlySpeed v p value) :=
  inferInstanceAs (Decidable (_ ∧ _))

def respondActions : List (FleetAction Bool 2 Unit) :=
  overheardActions (responseMessage 7 speed)

def speedMessage : Message := ⟨[2, 0, 0, 0, 0, 0], 5, 1, 3, [1, 7, 0, 0, 0, 1, 2, 3, 4, 5, 6, 7, 8]⟩

/-- A consumer that handles it shows the speed, produced in the other vehicle. -/
theorem shows_what_was_produced_respondActions :
    ∃ F : Fleet Bool 2 Unit, run Fleet.step (Answers 7 OnlySpeed) pair respondActions = some F ∧
      ∃ w q, OnlySpeed w q (LiveValue.after 7 0 [⟨speedMessage, 4, 5⟩]).lastValue ∧
        Names pairMac true w speedMessage.fromAddress := by
  have hrun : (run Fleet.step (Answers 7 OnlySpeed) pair respondActions).map (fun F ↦
      (F.shown true listener).filterMap messageShown) =
        some [(.shm, 0, maxSize, speedMessage)] := by
    decide +kernel
  obtain ⟨F, hF, hshown⟩ := Option.map_eq_some_iff.mp hrun
  obtain ⟨held, -, hgets⟩ := F.gets_of_shown (by rw [hshown]; exact List.mem_singleton_self _)
  have hheard : ∀ e ∈ [(⟨speedMessage, 4, 5⟩ : Handled)],
      ∃ n held, F.Gets true listener n held maxSize e.message := fun e he ↦ by
    rw [List.mem_singleton.mp he]
    exact ⟨_, held, hgets⟩
  have hafter : LiveValue.after 7 0 [⟨speedMessage, 4, 5⟩] =
      (LiveValue.after 7 0 [⟨speedMessage, 4, 5⟩] : LiveValue 8) := rfl
  obtain ⟨-, hvalue, -⟩ :=
    shows_what_was_produced (by decide) (reaches_of_run respondActions hF) hheard hafter
  obtain ⟨e, he, w, q, hproduced, hnames, -⟩ := hvalue (by decide)
  rw [List.mem_singleton.mp he] at hnames
  exact ⟨F, hF, w, q, hproduced, hnames⟩

end VehicleComm.Traffic
