import VehicleComm.Library.Memory
import VehicleComm.Library.Octets

/-!
# Frames and packets

`ethernet.h` and the header of `protocol.h`, as bytes. An `Ethernet::Frame` is a block of memory
with the destination, the source, the ethertype and the payload. The payload of a frame of the
library is a `Protocol::Packet`: timestamp, source port, destination port, quadrant, kind and data.
The fields are read from a list of bytes, which is the memory of a frame or what travels of it.

A `Packet` is laid out by the Itanium rules: the fields of `Header` fill 14 bytes, `sizeof(Header)`
is 16, and the data of the derived class starts in the padding, at 14. Integers are little endian
except for the ethertype, whose two bytes the code orders itself.
-/

set_option autoImplicit false
set_option relaxedAutoImplicit false

namespace VehicleComm.Network

open Library

/-- `Ethernet::MTU`. -/
def mtu : ℕ := 1500

/-- `Ethernet::HEADER_SIZE`. -/
def headerSize : ℕ := 14

/-- `sizeof(Ethernet::Frame)`. -/
def frameSize : ℕ := 1514

/-- `sizeof(Protocol::Header)`. -/
def packetHeaderSize : ℕ := 16

/-- `ETHERNET_PROTOCOL_NUMBER`, the ethertype of the library. -/
def proto : UInt16 := 0x8888

/-- `GPS::QUADRANT_NONE`. -/
def quadrantNone : UInt8 := 0xFF

/-- `Ethernet::Address`. -/
structure Address where
  octets : List UInt8
  length_octets : octets.length = 6
deriving DecidableEq

theorem Address.eq_of_octets {first second : Address} (h : first.octets = second.octets) :
    first = second := by
  cases first
  cases second
  cases h
  rfl

/-- `Ethernet::Address::BROADCAST`. -/
def Address.broadcast : Address := ⟨List.replicate 6 0xFF, List.length_replicate⟩

/-- `Ethernet::Address::INTERNAL`, the address of every process on the shared memory ring. -/
def Address.internal : Address := ⟨List.replicate 6 0, List.length_replicate⟩

/-- `PacketKind`. -/
inductive PacketKind
  | data
  | sptpSync
  | sptpRequestSync
deriving DecidableEq

def PacketKind.code : PacketKind → UInt8
  | .data => 0
  | .sptpSync => 1
  | .sptpRequestSync => 2

/-- The lowest `count` bytes of an integer, lowest first. -/
def littleEndian (count : ℕ) (value : UInt64) : List UInt8 :=
  (List.range count).map fun i ↦ (value >>> UInt64.ofNat (8 * i)).toUInt8

@[simp] theorem length_littleEndian (count : ℕ) (value : UInt64) :
    (littleEndian count value).length = count := by
  rw [littleEndian, List.length_map, List.length_range]

/-! ### Fields of a frame -/

/-- `Frame::dst`. -/
def etherDst (bytes : List UInt8) : List UInt8 := slice bytes 0 6

/-- `Frame::src`. -/
def etherSrc (bytes : List UInt8) : List UInt8 := slice bytes 6 6

/-- `Frame::type`, from its high and its low byte. -/
def etherType (bytes : List UInt8) : UInt16 :=
  ((bytes.getD 12 0).toUInt16 <<< 8) ||| (bytes.getD 13 0).toUInt16

/-- The two bytes that `Frame::type` stores. -/
def typeBytes (protocol : UInt16) : List UInt8 := [(protocol >>> 8).toUInt8, protocol.toUInt8]

/-- `Header::timestamp`. -/
def packetTimestamp (bytes : List UInt8) : Int64 :=
  ((slice bytes 14 8).foldr
    (fun (byte : UInt8) (rest : UInt64) ↦ (rest <<< 8) ||| byte.toUInt64) 0).toInt64

/-- `Header::src_port`. -/
def packetSrcPort (bytes : List UInt8) : UInt16 :=
  ((bytes.getD 23 0).toUInt16 <<< 8) ||| (bytes.getD 22 0).toUInt16

/-- `Header::dst_port`. -/
def packetDstPort (bytes : List UInt8) : UInt16 :=
  ((bytes.getD 25 0).toUInt16 <<< 8) ||| (bytes.getD 24 0).toUInt16

/-- `Header::quadrant`. -/
def packetQuadrant (bytes : List UInt8) : UInt8 := bytes.getD 26 0

/-- `Header::kind`. -/
def packetKind (bytes : List UInt8) : UInt8 := bytes.getD 27 0

/-- The first `count` bytes of `Packet::data`. -/
def packetData (bytes : List UInt8) (count : ℕ) : List UInt8 := slice bytes 28 count

/-- The packet is of one of the two kinds of the time synchronisation. -/
def isSptp (bytes : List UInt8) : Bool :=
  packetKind bytes = PacketKind.sptpSync.code || packetKind bytes = PacketKind.sptpRequestSync.code

theorem getD_take {bytes : List UInt8} {i count : ℕ} (hi : i < count) :
    (bytes.take count).getD i 0 = bytes.getD i 0 := by
  rw [List.getD_eq_getElem?_getD, List.getElem?_take_of_lt hi, List.getD_eq_getElem?_getD]

/-- The fields of the Ethernet header are those of any prefix that contains it. -/
theorem etherSrc_take {bytes : List UInt8} {count : ℕ} (hcount : headerSize ≤ count) :
    etherSrc (bytes.take count) = etherSrc bytes :=
  slice_take (by rw [headerSize] at hcount; omega)

theorem etherDst_take {bytes : List UInt8} {count : ℕ} (hcount : headerSize ≤ count) :
    etherDst (bytes.take count) = etherDst bytes :=
  slice_take (by rw [headerSize] at hcount; omega)

theorem etherType_take {bytes : List UInt8} {count : ℕ} (hcount : headerSize ≤ count) :
    etherType (bytes.take count) = etherType bytes := by
  rw [headerSize] at hcount
  rw [etherType, etherType, getD_take (by omega), getD_take (by omega)]

/-- The fields of the packet header are those of any prefix that contains it. -/
theorem packetTimestamp_take {bytes : List UInt8} {count : ℕ}
    (hcount : headerSize + packetHeaderSize ≤ count) :
    packetTimestamp (bytes.take count) = packetTimestamp bytes := by
  rw [headerSize, packetHeaderSize] at hcount
  rw [packetTimestamp, packetTimestamp, slice_take (by omega)]

theorem packetDstPort_take {bytes : List UInt8} {count : ℕ}
    (hcount : headerSize + packetHeaderSize ≤ count) :
    packetDstPort (bytes.take count) = packetDstPort bytes := by
  rw [headerSize, packetHeaderSize] at hcount
  rw [packetDstPort, packetDstPort, getD_take (by omega), getD_take (by omega)]

theorem packetSrcPort_take {bytes : List UInt8} {count : ℕ}
    (hcount : headerSize + packetHeaderSize ≤ count) :
    packetSrcPort (bytes.take count) = packetSrcPort bytes := by
  rw [headerSize, packetHeaderSize] at hcount
  rw [packetSrcPort, packetSrcPort, getD_take (by omega), getD_take (by omega)]

theorem isSptp_take {bytes : List UInt8} {count : ℕ}
    (hcount : headerSize + packetHeaderSize ≤ count) :
    isSptp (bytes.take count) = isSptp bytes := by
  rw [headerSize, packetHeaderSize] at hcount
  rw [isSptp, isSptp, packetKind, packetKind, getD_take (by omega)]

theorem packetQuadrant_take {bytes : List UInt8} {count : ℕ}
    (hcount : headerSize + packetHeaderSize ≤ count) :
    packetQuadrant (bytes.take count) = packetQuadrant bytes := by
  rw [headerSize, packetHeaderSize] at hcount
  rw [packetQuadrant, packetQuadrant, getD_take (by omega)]

/-! ### Reading what was written -/

theorem getD_of_slice {bytes part : List UInt8} {offset count : ℕ}
    (hslice : slice bytes offset count = part) {i : ℕ} (hi : i < count) :
    bytes.getD (offset + i) 0 = part.getD i 0 := by
  rw [List.getD_eq_getElem?_getD, List.getD_eq_getElem?_getD, ← hslice, getElem?_slice, if_pos hi]

theorem packetTimestamp_of_slice {bytes : List UInt8} {ts : Int64}
    (hslice : slice bytes 14 8 = littleEndian 8 ts.toUInt64) : packetTimestamp bytes = ts := by
  have hvalue : fromLittleEndian (slice bytes 14 8) = ts.toUInt64 := by
    rw [hslice]
    exact fromLittleEndian_octetsOf ts.toUInt64
  show (fromLittleEndian (slice bytes 14 8)).toInt64 = ts
  rw [hvalue, Int64.toInt64_toUInt64]

theorem packetSrcPort_of_slice {bytes : List UInt8} {port : UInt16}
    (hslice : slice bytes 22 2 = littleEndian 2 port.toUInt64) : packetSrcPort bytes = port := by
  have hlow : bytes.getD 22 0 = _ := getD_of_slice hslice (i := 0) (by omega)
  have hhigh : bytes.getD 23 0 = _ := getD_of_slice hslice (i := 1) (by omega)
  rw [packetSrcPort, hlow, hhigh]
  exact ofOctets_octetsOf_two port

theorem packetDstPort_of_slice {bytes : List UInt8} {port : UInt16}
    (hslice : slice bytes 24 2 = littleEndian 2 port.toUInt64) : packetDstPort bytes = port := by
  have hlow : bytes.getD 24 0 = _ := getD_of_slice hslice (i := 0) (by omega)
  have hhigh : bytes.getD 25 0 = _ := getD_of_slice hslice (i := 1) (by omega)
  rw [packetDstPort, hlow, hhigh]
  exact ofOctets_octetsOf_two port

theorem packetKind_of_slice {bytes : List UInt8} {kind : PacketKind}
    (hslice : slice bytes 27 1 = [kind.code]) : packetKind bytes = kind.code :=
  getD_of_slice hslice (i := 0) (by omega)

/-! ### The Ethernet header -/

def etherHeader (dst src : Address) (protocol : UInt16) : List UInt8 :=
  dst.octets ++ src.octets ++ typeBytes protocol

@[simp] theorem length_etherHeader (dst src : Address) (protocol : UInt16) :
    (etherHeader dst src protocol).length = headerSize := by
  simp [etherHeader, dst.length_octets, src.length_octets, typeBytes, headerSize]

/-- What the header fields of bytes that start with a header of the library are. -/
theorem fields_of_etherHeader {dst src : Address} {bytes : List UInt8}
    (hheader : bytes.take headerSize = etherHeader dst src proto) :
    etherDst bytes = dst.octets ∧ etherSrc bytes = src.octets ∧ etherType bytes = proto := by
  have hdst := dst.length_octets
  have hsrc := src.length_octets
  refine ⟨?_, ?_, ?_⟩
  · rw [← etherDst_take (le_refl headerSize), hheader, etherHeader, etherDst, slice, List.drop_zero,
      List.append_assoc, List.take_left' hdst]
  · rw [← etherSrc_take (le_refl headerSize), hheader, etherHeader, etherSrc, slice,
      List.append_assoc, List.drop_left' hdst, List.take_left' hsrc]
  · have hlength : (dst.octets ++ src.octets).length = 12 := by
      rw [List.length_append, hdst, hsrc]
    have hhigh : (etherHeader dst src proto).getD 12 0 = 0x88 := by
      rw [etherHeader, List.getD_append_right _ _ _ _ (by omega), hlength]
      rfl
    have hlow : (etherHeader dst src proto).getD 13 0 = 0x88 := by
      rw [etherHeader, List.getD_append_right _ _ _ _ (by omega), hlength]
      rfl
    rw [← etherType_take (le_refl headerSize), hheader, etherType, hhigh, hlow]
    rfl

/-! ### Frames in memory -/

/-- The memory of an `Ethernet::Frame`. -/
structure Frame where
  bytes : List UInt8
  length_bytes : bytes.length = frameSize

def Frame.store (frame : Frame) (offset : ℕ) (part : List UInt8) : Frame :=
  ⟨overwrite frame.bytes offset part, by rw [length_overwrite, frame.length_bytes]⟩

@[simp] theorem Frame.bytes_store (frame : Frame) (offset : ℕ) (part : List UInt8) :
    (frame.store offset part).bytes = overwrite frame.bytes offset part := rfl

/-- A read of the stretch written finds what was written. -/
theorem Frame.slice_store (frame : Frame) {offset count : ℕ} {part : List UInt8}
    (hcount : part.length = count) (hfits : offset + count ≤ frameSize) :
    slice (frame.store offset part).bytes offset count = part := by
  subst hcount
  exact slice_overwrite (by rwa [frame.length_bytes])

/-- A read of another stretch finds what was there. -/
theorem Frame.slice_store_of_disjoint (frame : Frame) {offset start count : ℕ} {part : List UInt8}
    (haway : start + count ≤ offset ∨ offset + part.length ≤ start) :
    slice (frame.store offset part).bytes start count = slice frame.bytes start count :=
  slice_overwrite_of_disjoint haway

/-- A read of one byte elsewhere finds what was there. -/
theorem Frame.getD_store_of_disjoint (frame : Frame) {offset i : ℕ} {part : List UInt8}
    (haway : i < offset ∨ offset + part.length ≤ i) :
    (frame.store offset part).bytes.getD i 0 = frame.bytes.getD i 0 := by
  by_cases hi : i < frame.bytes.length
  · rw [List.getD_eq_getElem?_getD, List.getD_eq_getElem?_getD, bytes_store,
      getElem?_overwrite _ _ _ hi, if_neg (by omega)]
  · rw [List.getD_eq_default _ _ (by simpa using hi), List.getD_eq_default _ _ (not_lt.mp hi)]

def Frame.setHeader (frame : Frame) (dst src : Address) (protocol : UInt16) : Frame :=
  ((frame.store 0 dst.octets).store 6 src.octets).store 12 (typeBytes protocol)

/-- A frame starts with the header that was written. -/
theorem Frame.take_setHeader (frame : Frame) (dst src : Address) (protocol : UInt16) :
    (frame.setHeader dst src protocol).bytes.take headerSize = etherHeader dst src protocol := by
  have hdst := dst.length_octets
  have hsrc := src.length_octets
  have hlength : ∀ count ≤ frameSize, (frame.bytes.take count).length = count := by
    intro count hcount
    rw [List.length_take, frame.length_bytes]
    omega
  have htype : (typeBytes protocol).length = 2 := rfl
  simp only [setHeader, bytes_store, headerSize, take_overwrite]
  rw [overwrite_suffix (by rw [htype, length_overwrite, length_overwrite, hlength 14 (by decide)]),
    take_overwrite, take_overwrite, List.take_take]
  rw [overwrite_suffix (by rw [hsrc, length_overwrite, hlength (min 12 14) (by decide)]; rfl),
    take_overwrite, List.take_take]
  rw [overwrite_suffix (by rw [hdst, hlength (min 6 (min 12 14)) (by decide)]; rfl), List.take_zero,
    List.nil_append, etherHeader]

/-- A frame starts with what was copied to its start. -/
theorem Frame.take_store_zero (frame : Frame) {part : List UInt8}
    (hfits : part.length ≤ frameSize) :
    (frame.store 0 part).bytes.take part.length = part := by
  have hlength : (frame.bytes.take part.length).length = part.length := by
    rw [List.length_take, frame.length_bytes]
    omega
  rw [bytes_store, take_overwrite, overwrite_suffix (by rw [hlength, Nat.zero_add]), List.take_zero,
    List.nil_append]

/-- A frame whose payload was copied in has its header and the payload. -/
theorem Frame.take_store_headerSize (frame : Frame) {part : List UInt8}
    (hfits : headerSize + part.length ≤ frameSize) :
    (frame.store headerSize part).bytes.take (headerSize + part.length) =
      frame.bytes.take headerSize ++ part := by
  have hlength : (frame.bytes.take (headerSize + part.length)).length =
      headerSize + part.length := by
    rw [List.length_take, frame.length_bytes]
    omega
  rw [bytes_store, take_overwrite, overwrite_suffix hlength.symm, List.take_take,
    min_eq_left (Nat.le_add_right _ _)]

/-- A write to the payload leaves the header. -/
theorem Frame.take_headerSize_store (frame : Frame) {offset : ℕ} (part : List UInt8)
    (hoffset : headerSize ≤ offset) :
    (frame.store offset part).bytes.take headerSize = frame.bytes.take headerSize := by
  rw [bytes_store, take_overwrite_of_le hoffset]

end VehicleComm.Network
