import VehicleComm.Library.Int64Range
import VehicleComm.SmartData.Release
import VehicleComm.SmartData.Subscription

/-!
# The value that a consumer shows

A consumer `SmartData` keeps of the responses of its unit the last value, when it came and from
which vehicles (`LiveValue`), and shows it with `value` as long as `expired` says that it is fresh.
A `Value` is the bytes of the type's `Value`; `respond` sends them behind a header.

What is kept is a summary of all that was handled (`LiveValue.Summary`): the value and the time are
those of the last response that was long enough for a value, the vehicles are those of any response.
A response is counted before its length is looked at, so a vehicle may be counted as a producer
without a value ever shown from it. The consumer checks neither the sender nor the order of the
responses: with several producers the value shown is that of the one heard last.
-/

set_option autoImplicit false
set_option relaxedAutoImplicit false

namespace VehicleComm.SmartData

open Library Network Channel

/-- The bytes of a `Value` of size `k`. -/
abbrev Value (k : ℕ) : Type := { bytes : List UInt8 // bytes.length = k }

variable {k : ℕ}

theorem length_zeros (k : ℕ) : (List.replicate k (0 : UInt8)).length = k := List.length_replicate

/-- `Value{}`. -/
def Value.zero (k : ℕ) : Value k := ⟨List.replicate k 0, length_zeros k⟩

/-! ### The response message -/

/-- The payload of `SmartData::respond`. -/
def responseMessage (unit : UInt32) (value : Value k) : List UInt8 :=
  responseKind :: (octetsOf 4 unit.toUInt64 ++ value.val)

/-- The messages that `update` of a consumer does not delete at once. -/
def isResponse (unit : UInt32) (data : List UInt8) : Bool :=
  smartHeaderSize ≤ data.length && headerUnit data = unit && headerKind data = responseKind

/-- `ResponseMessage::value`, of a message that is long enough. -/
def responseValue (data : List UInt8) (hlong : smartHeaderSize + k ≤ data.length) : Value k :=
  ⟨slice data smartHeaderSize k, length_slice hlong⟩

section Response

variable (unit : UInt32) (value : Value k)

theorem length_responseMessage : (responseMessage unit value).length = smartHeaderSize + k := by
  rw [responseMessage, List.length_cons, List.length_append, length_octetsOf, value.property,
    smartHeaderSize]
  omega

/-- What is read of a response is what was written. -/
theorem responseValue_responseMessage {data : List UInt8}
    (hdata : data = responseMessage unit value)
    (hlong : smartHeaderSize + k ≤ data.length) : responseValue data hlong = value := by
  subst hdata
  refine Subtype.ext ?_
  have hdrop : (responseMessage unit value).drop smartHeaderSize = value.val := by
    rw [responseMessage, smartHeaderSize, List.drop_succ_cons,
      List.drop_left' (length_octetsOf 4 _)]
  simp only [responseValue, slice, hdrop]
  exact List.take_of_length_le value.property.le

/-- What is cut behind the header is still a response, or was none. -/
theorem isResponse_take {data : List UInt8} {count : ℕ} (hcount : smartHeaderSize ≤ count) :
    isResponse unit (data.take count) = isResponse unit data := by
  have hunit : slice (data.take count) 1 4 = slice data 1 4 := slice_take (by
    rw [smartHeaderSize] at hcount
    omega)
  have hkind : headerKind (data.take count) = headerKind data := by
    rw [headerKind, headerKind, List.getD_eq_getElem?_getD, List.getD_eq_getElem?_getD,
      List.getElem?_take_of_lt (by rw [smartHeaderSize] at hcount; omega)]
  have hlength : decide (smartHeaderSize ≤ (data.take count).length) =
      decide (smartHeaderSize ≤ data.length) := by
    rw [decide_eq_decide, List.length_take, le_min_iff]
    exact and_iff_right hcount
  rw [isResponse, isResponse, headerUnit, headerUnit, hunit, hkind, hlength]

end Response

/-! ### What is kept of the responses -/

/-- A message that a consumer handles, with the two readings of the clock in `update`. -/
structure Handled where
  message : Message
  responseNs : Int64
  valueNs : Int64

/-- `mac_key` of the address of a message. -/
def originKey (message : Message) : UInt64 := message.fromAddress.foldl appendOctet 0

/-- The members of a consumer that `update` writes. -/
structure LiveValue (k : ℕ) where
  lastResponseNs : Int64
  producers : Finset UInt64
  responses : ℕ
  lastValue : Value k
  lastValueNs : Int64
  hasValue : Bool

namespace LiveValue

def initial (nowNs : Int64) : LiveValue k := ⟨nowNs, ∅, 0, .zero k, 0, false⟩

/-- `update` of a consumer. -/
def update (unit : UInt32) (s : LiveValue k) (e : Handled) : LiveValue k :=
  if isResponse unit e.message.data then
    let t := { s with
      lastResponseNs := e.responseNs
      producers := insert (originKey e.message) s.producers
      responses := s.responses + 1 }
    if hlong : smartHeaderSize + k ≤ e.message.data.length then
      { t with
        lastValue := responseValue e.message.data hlong
        lastValueNs := e.valueNs
        hasValue := true }
    else t
  else s

def after (unit : UInt32) (nowNs : Int64) (heard : List Handled) : LiveValue k :=
  heard.foldl (update unit) (initial nowNs)

/-- `expired`. -/
def expired (s : LiveValue k) (periodUs : UInt64) (nowNs : Int64) : Bool :=
  !s.hasValue || decide (3 * periodUs.toInt64 * 1000 < nowNs - s.lastValueNs)

/-- `fresh`. -/
def fresh (s : LiveValue k) (periodUs : UInt64) (nowNs : Int64) : Bool := !s.expired periodUs nowNs

def Brings (k : ℕ) (unit : UInt32) (e : Handled) : Prop :=
  isResponse unit e.message.data = true ∧ smartHeaderSize + k ≤ e.message.data.length

/-- The value and its time are those of the last message that brought one. -/
def Latest (unit : UInt32) (heard : List Handled) (s : LiveValue k) : Prop :=
  if s.hasValue then
    ∃ front e back, heard = front ++ e :: back ∧ isResponse unit e.message.data = true ∧
      (∃ hlong, s.lastValue = responseValue e.message.data hlong) ∧ s.lastValueNs = e.valueNs ∧
        ∀ later ∈ back, ¬Brings k unit later
  else s.lastValue = .zero k ∧ ∀ e ∈ heard, ¬Brings k unit e

/-- What a consumer keeps sums up the messages it has handled. -/
structure Summary (unit : UInt32) (heard : List Handled) (s : LiveValue k) : Prop where
  latest : s.Latest unit heard
  producers : ∀ key, key ∈ s.producers ↔
    ∃ e ∈ heard, isResponse unit e.message.data = true ∧ key = originKey e.message
  responses : s.responses = heard.countP fun e ↦ isResponse unit e.message.data

variable {unit : UInt32} {heard : List Handled} {s : LiveValue k} {e : Handled}

/-- A message that brings no value leaves the last one. -/
theorem Latest.keep (h : s.Latest unit heard) {t : LiveValue k} (hhas : t.hasValue = s.hasValue)
    (hvalue : t.lastValue = s.lastValue) (htime : t.lastValueNs = s.lastValueNs)
    (hnone : ¬Brings k unit e) : t.Latest unit (heard ++ [e]) := by
  unfold Latest at h ⊢
  rw [hhas, hvalue, htime]
  split_ifs at h ⊢ with hsome
  · obtain ⟨front, last, back, rfl, hresponse, hlast, hns, hback⟩ := h
    refine ⟨front, last, back ++ [e], by simp, hresponse, hlast, hns, fun later hlater ↦ ?_⟩
    rcases List.mem_append.mp hlater with hold | hnew
    · exact hback later hold
    · rwa [List.mem_singleton.mp hnew]
  · refine ⟨h.1, fun later hlater ↦ ?_⟩
    rcases List.mem_append.mp hlater with hold | hnew
    · exact h.2 later hold
    · rwa [List.mem_singleton.mp hnew]

theorem Summary.update (h : s.Summary unit heard) (e : Handled) :
    (s.update unit e).Summary unit (heard ++ [e]) := by
  obtain ⟨hlatest, hproducers, hresponses⟩ := h
  unfold LiveValue.update
  by_cases hresponse : isResponse unit e.message.data = true
  · have hkeys : ∀ key, key ∈ insert (originKey e.message) s.producers ↔
        ∃ e' ∈ heard ++ [e], isResponse unit e'.message.data = true ∧
          key = originKey e'.message := by
      intro key
      rw [Finset.mem_insert, hproducers]
      constructor
      · rintro (rfl | ⟨e', he', hkey⟩)
        · exact ⟨e, List.mem_append_right _ (List.mem_singleton_self e), hresponse, rfl⟩
        · exact ⟨e', List.mem_append_left _ he', hkey⟩
      · rintro ⟨e', he', hkey⟩
        rcases List.mem_append.mp he' with hold | hnew
        · exact Or.inr ⟨e', hold, hkey⟩
        · rw [List.mem_singleton.mp hnew] at hkey
          exact Or.inl hkey.2
    have hcount : s.responses + 1 =
        (heard ++ [e]).countP fun e ↦ isResponse unit e.message.data := by
      rw [List.countP_append, ← hresponses, List.countP_singleton, hresponse]
      rfl
    rw [if_pos hresponse]
    split_ifs with hlong
    · refine ⟨?_, hkeys, hcount⟩
      exact ⟨heard, e, [], rfl, hresponse, ⟨hlong, rfl⟩, rfl, fun _ hin ↦ absurd hin
        List.not_mem_nil⟩
    · exact ⟨hlatest.keep rfl rfl rfl fun hbrings ↦ hlong hbrings.2, hkeys, hcount⟩
  · rw [if_neg hresponse]
    refine ⟨hlatest.keep rfl rfl rfl fun hbrings ↦ hresponse hbrings.1, fun key ↦ ?_, ?_⟩
    · rw [hproducers]
      constructor
      · rintro ⟨e', he', hkey⟩
        exact ⟨e', List.mem_append_left _ he', hkey⟩
      · rintro ⟨e', he', hkey⟩
        rcases List.mem_append.mp he' with hold | hnew
        · exact ⟨e', hold, hkey⟩
        · rw [List.mem_singleton.mp hnew] at hkey
          exact absurd hkey.1 hresponse
    · rw [List.countP_append, List.countP_singleton, if_neg hresponse, hresponses, add_zero]

/-- Along every list of messages. -/
theorem summary_after (unit : UInt32) (nowNs : Int64) (heard : List Handled) :
    (after unit nowNs heard : LiveValue k).Summary unit heard := by
  induction heard using List.reverseRecOn with
  | nil =>
    refine ⟨⟨rfl, nofun⟩, fun key ↦ ?_, rfl⟩
    simp [after, initial]
  | append_singleton heard e ih =>
    rw [after, List.foldl_concat]
    exact ih.update e

/-- In the range of the arithmetic, a value is fresh when it is not older than three periods. -/
theorem fresh_iff {periodUs : UInt64} {nowNs : Int64} (hperiod : 3000 * periodUs.toNat < 2 ^ 63)
    (hnow : 0 ≤ nowNs.toInt) (hlast : 0 ≤ s.lastValueNs.toInt) :
    s.fresh periodUs nowNs = true ↔
      s.hasValue = true ∧ nowNs.toInt - s.lastValueNs.toInt ≤ 3000 * periodUs.toNat := by
  have hcast : periodUs.toInt64.toInt = periodUs.toNat := by
    rw [toInt_toInt64, bmod_eq_self_iff]
    exact ⟨by omega, by omega⟩
  have hthree : (3 * periodUs.toInt64).toInt = 3 * periodUs.toNat := by
    rw [Int64.toInt_mul, hcast, show (3 : Int64).toInt = 3 from rfl, bmod_eq_self_iff]
    exact ⟨by omega, by omega⟩
  have hlimit : (3 * periodUs.toInt64 * 1000).toInt = 3000 * periodUs.toNat := by
    have hproduct : (3 * (periodUs.toNat : ℤ) * 1000).bmod (2 ^ 64) = 3 * periodUs.toNat * 1000 :=
      bmod_eq_self_iff.mpr ⟨by omega, by omega⟩
    rw [Int64.toInt_mul, hthree, show (1000 : Int64).toInt = 1000 from rfl, hproduct]
    omega
  have hage : (nowNs - s.lastValueNs).toInt = nowNs.toInt - s.lastValueNs.toInt := by
    have hupper := nowNs.toInt_lt
    have hupper' := s.lastValueNs.toInt_lt
    exact (toInt_sub_iff _ _).mpr ⟨by omega, by omega⟩
  rw [fresh, expired, Bool.not_or, Bool.not_not, Bool.and_eq_true, Bool.not_eq_true',
    decide_eq_false_iff_not, Int64.lt_iff_toInt_lt, hlimit, hage, not_lt]

end LiveValue

end VehicleComm.SmartData
