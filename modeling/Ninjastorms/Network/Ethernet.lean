import Ninjastorms.Lib.ByteMemory
import Ninjastorms.Libc.Memcpy
import Mathlib.Data.Fin.VecNotation
import Mathlib.Data.Fintype.Pi

/-!
# Byte order and Ethernet frames

`kernel/network/network_io.c` and `kernel/network/ethernet.c`.

* A `Host` is what this code reads from the machine and never writes.  The byte
  order in which the CPU loads and stores is one thing, the register that
  `is_big_endian` looks at another; nothing here assumes that they agree.
* A frame in memory is its bytes from the pointer on.  `EthernetFrame` is the
  packed struct, read by `ethernetFrameAt`; the enumeration `ether_type` takes
  two bytes.
* `ethernetSend` is given the bytes from the payload pointer on, also those
  behind the payload, and the bytes of the freshly allocated block, and returns
  what the network card is told to send.
-/

namespace Ninjastorms
namespace Network

open Libc Lib.ByteMemory

/-- `mac_address_t`. -/
abbrev MacAddress := Fin 6 → Byte

/-- `NULL_MAC`. -/
def NULL_MAC : MacAddress := fun _ => 0

/-- `BROADCAST_MAC`. -/
def BROADCAST_MAC : MacAddress := fun _ => 0xff

/-- `ETH_MAC_ADDRESS_LENGTH`. -/
def ETH_MAC_ADDRESS_LENGTH : Byte := 6

/-- `MINIMUM_PAYLOAD_LENGTH`. -/
def MINIMUM_PAYLOAD_LENGTH : Word := 46

/-- `TYPE_ARP`. -/
def TYPE_ARP : HalfWord := 0x0806

/-- `TYPE_IPv4`. -/
def TYPE_IPv4 : HalfWord := 0x0800

/-- `OWN_IPV4_ADDR` as it is set in `ipv4.h`. -/
def OWN_IPV4_ADDR : Word := 0x0A00020A

/-- One machine: the byte order of its CPU, the register `SYS_CFGDATA2`, the
address `OWN_IPV4_ADDR` it is built with, the address of its network card, and
whether the card was found (`pci_device` is not null). -/
structure Host where
  cpuBigEndian : Bool
  sysCfgData2 : Word
  ownIpv4Addr : Word
  mac : MacAddress
  available : Bool

/-- `is_big_endian`. -/
def isBigEndian (host : Host) : Bool :=
  host.sysCfgData2 &&& (1 <<< 1) != 0

/-- The board that qemu emulates, with a network card: a little-endian machine. -/
def versatileHost : Host where
  cpuBigEndian := false
  sysCfgData2 := 0
  ownIpv4Addr := OWN_IPV4_ADDR
  mac := ![0x56, 0x34, 0x12, 0x00, 0x54, 0x52]
  available := true

/-! ### Loads and stores -/

/-- Load a `uint16_t` in the byte order of the CPU. -/
def loadHalf (host : Host) (b : Bytes) (k : Nat) : HalfWord :=
  if host.cpuBigEndian then b k ++ b (k + 1) else b (k + 1) ++ b k

/-- Load a `uint32_t` in the byte order of the CPU. -/
def loadWord (host : Host) (b : Bytes) (k : Nat) : Word :=
  if host.cpuBigEndian then b k ++ b (k + 1) ++ b (k + 2) ++ b (k + 3)
  else b (k + 3) ++ b (k + 2) ++ b (k + 1) ++ b k

/-- Load a `mac_address_t`, an array of bytes. -/
def loadMac (b : Bytes) (k : Nat) : MacAddress :=
  fun i => b (k + i.val)

/-- The bytes of a `uint16_t` in memory. -/
def halfBytes (host : Host) (v : HalfWord) : Bytes := fun i =>
  byteAt v (if host.cpuBigEndian then 1 - i else i)

/-- The bytes of a `uint32_t` in memory. -/
def wordBytes (host : Host) (v : Word) : Bytes := fun i =>
  byteAt v (if host.cpuBigEndian then 3 - i else i)

/-- The bytes of a `mac_address_t` in memory. -/
def macBytes (mac : MacAddress) : Bytes := fun i =>
  if h : i < 6 then mac ⟨i, h⟩ else 0

/-- Store a `uint16_t`. -/
def storeHalf (host : Host) (b : Bytes) (k : Nat) (v : HalfWord) : Bytes :=
  memcpy b k (halfBytes host v) 2

/-- Store a `uint32_t`. -/
def storeWord (host : Host) (b : Bytes) (k : Nat) (v : Word) : Bytes :=
  memcpy b k (wordBytes host v) 4

/-- Store a `mac_address_t`. -/
def storeMac (b : Bytes) (k : Nat) (mac : MacAddress) : Bytes :=
  memcpy b k (macBytes mac) 6

/-! ### `network_io.c` -/

/-- `__builtin_bswap16`. -/
def bswap16 (v : HalfWord) : HalfWord :=
  byteAt v 0 ++ byteAt v 1

/-- `__builtin_bswap32`. -/
def bswap32 (v : Word) : Word :=
  byteAt v 0 ++ byteAt v 1 ++ byteAt v 2 ++ byteAt v 3

/-- `htonl`. -/
def htonl (host : Host) (hostlong : Word) : Word :=
  if isBigEndian host then hostlong else bswap32 hostlong

/-- `htons`. -/
def htons (host : Host) (hostshort : HalfWord) : HalfWord :=
  if isBigEndian host then hostshort else bswap16 hostshort

/-- `ntohl`. -/
def ntohl (host : Host) (netlong : Word) : Word :=
  if isBigEndian host then netlong else bswap32 netlong

/-- `ntohs`. -/
def ntohs (host : Host) (netshort : HalfWord) : HalfWord :=
  if isBigEndian host then netshort else bswap16 netshort

/-- `hton_mac`: byte `i` goes to place `5 - i`. -/
def htonMac (host : Host) (mac : MacAddress) : MacAddress :=
  if isBigEndian host then mac else fun i => mac i.rev

/-- `ntoh_mac`. -/
def ntohMac (host : Host) (mac : MacAddress) : MacAddress :=
  if isBigEndian host then mac else fun i => mac i.rev

/-! ### `ethernet.c` -/

/-- `ethernet_frame_t`. -/
structure EthernetFrame where
  destMac : MacAddress
  srcMac : MacAddress
  etherType : HalfWord
  payload : Bytes

/-- `sizeof(ethernet_frame_t)`, which is also the offset of the payload. -/
def sizeofEthernetFrame : Nat := 14

/-- The frame that a pointer to these bytes points to. -/
def ethernetFrameAt (host : Host) (b : Bytes) : EthernetFrame where
  destMac := loadMac b 0
  srcMac := loadMac b 6
  etherType := loadHalf host b 12
  payload := fun k => b (sizeofEthernetFrame + k)

/-- `mac_address_equal`. -/
def macAddressEqual (mac1 mac2 : MacAddress) : Bool :=
  (List.finRange 6).all fun i => mac1 i == mac2 i

/-- What is sent: the bytes that the transmit descriptor announces. -/
abbrev Frame := List Byte

/-- `e1000_send_packet`, as far as the network sees it. -/
def e1000SendPacket (host : Host) (pData : Bytes) (pLen : HalfWord) : List Frame :=
  if host.available then [(List.range pLen.toNat).map pData] else []

/-- `len_padding` in `ethernet_send`, a `uint8_t`. -/
def lenPadding (lenPayload : Word) : Byte :=
  if lenPayload < MINIMUM_PAYLOAD_LENGTH then
    (MINIMUM_PAYLOAD_LENGTH - lenPayload).setWidth 8
  else 0

/-- `len` in `ethernet_send`. -/
def paddedLen (lenPayload : Word) : Word :=
  (lenPadding lenPayload).setWidth 32 + lenPayload

/-- The block that `ethernet_send` has allocated, once it has filled it in. -/
def fillFrame (host : Host) (destMac : MacAddress) (ethType : HalfWord) (payload : Bytes)
    (lenPayload : Word) (block : Bytes) : Bytes :=
  let block := storeMac block 0 (htonMac host destMac)
  let block := storeMac block 6 (htonMac host host.mac)
  let block := storeHalf host block 12 (htons host ethType)
  let block := memcpy block sizeofEthernetFrame payload (paddedLen lenPayload).toNat
  if lenPadding lenPayload ≠ 0 then
    memset block (sizeofEthernetFrame + lenPayload.toNat) 0 (lenPadding lenPayload).toNat
  else
    block

/-- `ethernet_send`, when `malloc` has returned a block that held `block`. -/
def ethernetSend (host : Host) (destMac : MacAddress) (ethType : HalfWord) (payload : Bytes)
    (lenPayload : Word) (block : Bytes) : List Frame :=
  e1000SendPacket host (fillFrame host destMac ethType payload lenPayload block)
    ((BitVec.ofNat 32 sizeofEthernetFrame + paddedLen lenPayload).setWidth 16)

/-! ### Laws -/

@[simp] theorem macAddressEqual_iff (mac1 mac2 : MacAddress) :
    macAddressEqual mac1 mac2 = true ↔ mac1 = mac2 := by
  simp [macAddressEqual, funext_iff]

/-- Half-words are equal when their two bytes are. -/
theorem half_eq_iff {v w : HalfWord} : v = w ↔ byteAt v 0 = byteAt w 0 ∧ byteAt v 1 = byteAt w 1 := by
  refine ⟨by rintro rfl; exact ⟨rfl, rfl⟩, fun ⟨h0, h1⟩ => eq_of_byteAt (m := 2) fun k hk => ?_⟩
  rcases Nat.lt_succ_iff_lt_or_eq.mp hk with hk' | rfl
  · rw [Nat.lt_one_iff.mp hk']
    exact h0
  · exact h1

/-- A loaded half-word tells both of its bytes. -/
theorem loadHalf_eq_iff (host : Host) (b : Bytes) (k : Nat) (v : HalfWord) :
    loadHalf host b k = v ↔ b k = halfBytes host v 0 ∧ b (k + 1) = halfBytes host v 1 := by
  rw [half_eq_iff]
  unfold loadHalf halfBytes
  cases host.cpuBigEndian
  · simp [byteAt_append]
  · simp [byteAt_append, and_comm]

theorem loadHalf_congr {host : Host} {b b' : Bytes} {k : Nat} (h0 : b k = b' k) (h1 : b (k + 1) = b' (k + 1)) :
    loadHalf host b k = loadHalf host b' k := by
  rw [loadHalf, loadHalf, h0, h1]

/-- A loaded half-word is the one that was stored. -/
theorem loadHalf_storeHalf (host : Host) (b : Bytes) (k : Nat) (v : HalfWord) :
    loadHalf host (storeHalf host b k v) k = v := by
  rw [loadHalf_eq_iff, storeHalf, memcpy_inside (by omega) (by omega),
    memcpy_inside (by omega) (by omega), Nat.sub_self, Nat.add_sub_cancel_left]
  exact ⟨rfl, rfl⟩

@[simp] theorem bswap16_bswap16 (v : HalfWord) : bswap16 (bswap16 v) = v := by
  rw [half_eq_iff]
  simp [bswap16, byteAt_append]

theorem ntohs_eq_iff (host : Host) (v w : HalfWord) : ntohs host v = w ↔ v = htons host w := by
  unfold ntohs htons
  cases isBigEndian host
  · constructor
    · rintro rfl
      simp
    · rintro rfl
      simp
  · simp

end Network
end Ninjastorms
