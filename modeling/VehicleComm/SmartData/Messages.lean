import VehicleComm.Channel.Protocol

/-!
# Messages of the smart data layer

`smart_message.h` and `smart_helpers.h`: the payload of an interest message, packed, and the key of
a vehicle, the six bytes of its MAC address as one integer, which are different for different
vehicles (`macKey_injective`). An `Arrival` is what the observers of the `Communicator` read of a
`Message`.

The fields are read from a list of bytes, as `SmartData::update` and `Interest_Tracker::update` do
after they have compared its length with the one of the payload: a longer message is read by its
first bytes, and of a shorter one nothing but the header. The integers are little endian.
-/

set_option autoImplicit false
set_option relaxedAutoImplicit false

namespace VehicleComm.SmartData

open Library Network Channel

/-- What is read of a received `Message`: `address()`, `quadrant()`, `data()` and `size()`. -/
structure Arrival where
  address : Endpoint
  quadrant : UInt8
  data : List UInt8
deriving DecidableEq

/-- `sizeof(SmartHeader)`. -/
def smartHeaderSize : ℕ := 5

/-- `sizeof(InterestMessage)`. -/
def interestMessageSize : ℕ := 14

/-- `SmartHeader::INTEREST`. -/
def interestKind : UInt8 := 0

/-- `SmartHeader::kind`. -/
def headerKind (data : List UInt8) : UInt8 := data.getD 0 0

/-- `SmartHeader::unit`. -/
def headerUnit (data : List UInt8) : UInt32 := (fromLittleEndian (slice data 1 4)).toUInt32

/-- `InterestMessage::period_us`. -/
def interestPeriod (data : List UInt8) : UInt64 := fromLittleEndian (slice data 5 8)

/-- `InterestMessage::disinterest`, as a condition. -/
def isDisinterest (data : List UInt8) : Bool := data.getD 13 0 ≠ 0

/-- A message that is long enough for an `InterestMessage` and is of that kind. -/
def isInterest (data : List UInt8) : Bool :=
  interestMessageSize ≤ data.length && headerKind data = interestKind

/-! ### The key of a vehicle -/

/-- `mac_key`. -/
def macKey (mac : Address) : UInt64 := mac.octets.foldl appendOctet 0

/-- Different vehicles have different keys. -/
theorem macKey_injective : Function.Injective macKey := by
  intro mac mac' heq
  have hlength : mac.octets.length = mac'.octets.length := by
    rw [mac.length_octets, mac'.length_octets]
  have hroom : ((0 : UInt64).toNat + 1) * 256 ^ mac.octets.length ≤ 2 ^ 64 := by
    rw [mac.length_octets, UInt64.toNat_zero]
    omega
  obtain ⟨-, hoctets⟩ := foldl_appendOctet_injective mac.octets hlength hroom hroom heq
  obtain ⟨octets, hsix⟩ := mac
  obtain ⟨octets', hsix'⟩ := mac'
  obtain rfl : octets = octets' := hoctets
  rfl

end VehicleComm.SmartData
