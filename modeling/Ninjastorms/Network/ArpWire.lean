import Ninjastorms.Network.Arp

/-!
# ARP on the wire

What arrives and what is sent, as the bytes of the network: the most
significant byte of a number comes first, and a hardware address stands in the
order in which it is transmitted.  `ArpMessage` is one ARP message, `wire` its
28 bytes and `messageAt` the message that such bytes hold.

A host that agrees with its own CPU about the byte order reads and writes these
bytes, whichever order that is: `slice_fillFrame` says which 60 bytes
`ethernet_send` hands to the card, and `arpReceive_answers` which frames
`arp_receive` answers, and with what.
-/

namespace Ninjastorms
namespace Network

open Libc Lib.ByteMemory

/-! ### The format -/

/-- The `uint16_t` that the two bytes from `k` on transmit. -/
def netHalf (b : Bytes) (k : Nat) : HalfWord :=
  b k ++ b (k + 1)

/-- The `uint32_t` that the four bytes from `k` on transmit. -/
def netWord (b : Bytes) (k : Nat) : Word :=
  b k ++ b (k + 1) ++ b (k + 2) ++ b (k + 3)

def halfWire (v : HalfWord) : List Byte :=
  [byteAt v 1, byteAt v 0]

def wordWire (v : Word) : List Byte :=
  [byteAt v 3, byteAt v 2, byteAt v 1, byteAt v 0]

def macWire (mac : MacAddress) : List Byte :=
  [mac 0, mac 1, mac 2, mac 3, mac 4, mac 5]

/-- An ARP message for IPv4 over Ethernet. -/
structure ArpMessage where
  opcode : HalfWord
  senderMac : MacAddress
  senderIp : Word
  targetMac : MacAddress
  targetIp : Word

/-- The bytes of a message. -/
def ArpMessage.wire (msg : ArpMessage) : List Byte :=
  halfWire HTYPE_ETHERNET ++ halfWire TYPE_IPv4 ++ [ETH_MAC_ADDRESS_LENGTH] ++ [IPV4_ADDR_LEN] ++
    halfWire msg.opcode ++ macWire msg.senderMac ++ wordWire msg.senderIp ++
    macWire msg.targetMac ++ wordWire msg.targetIp

/-- The message that the bytes hold. -/
def messageAt (b : Bytes) : ArpMessage where
  opcode := netHalf b 6
  senderMac := loadMac b 8
  senderIp := netWord b 14
  targetMac := loadMac b 18
  targetIp := netWord b 24

/-- The bytes hold a message for IPv4 over Ethernet. -/
def HoldsMessage (b : Bytes) : Prop :=
  netHalf b 0 = HTYPE_ETHERNET ∧ netHalf b 2 = TYPE_IPv4 ∧ b 4 = ETH_MAC_ADDRESS_LENGTH ∧
    b 5 = IPV4_ADDR_LEN

instance (b : Bytes) : Decidable (HoldsMessage b) :=
  inferInstanceAs (Decidable (_ ∧ _))

/-- An Ethernet frame with a message, and the padding behind it. -/
def frameWire (destMac srcMac : MacAddress) (msg : ArpMessage) : Frame :=
  macWire destMac ++ macWire srcMac ++ halfWire TYPE_ARP ++ msg.wire ++ List.replicate 18 0

/-! ### The format has one reading -/

theorem slice_eq_halfWire (b : Bytes) (k : Nat) (v : HalfWord) :
    slice b k 2 = halfWire v ↔ netHalf b k = v := by
  rw [half_eq_iff]
  simp [slice, halfWire, netHalf, byteAt_append, List.range_succ, and_comm]

theorem slice_eq_wordWire (b : Bytes) (k : Nat) (v : Word) :
    slice b k 4 = wordWire v ↔ netWord b k = v := by
  constructor
  · intro h
    have hbytes : b k = byteAt v 3 ∧ b (k + 1) = byteAt v 2 ∧ b (k + 2) = byteAt v 1 ∧
        b (k + 3) = byteAt v 0 := by
      simpa [slice, wordWire, List.range_succ] using h
    obtain ⟨h3, h2, h1, h0⟩ := hbytes
    apply word_eq_of_byteAt
    intro i hi
    rw [netWord, h3, h2, h1, h0]
    interval_cases i <;> simp [byteAt_append]
  · rintro rfl
    simp [slice, wordWire, netWord, byteAt_append, List.range_succ]

theorem slice_eq_macWire (b : Bytes) (k : Nat) (mac : MacAddress) :
    slice b k 6 = macWire mac ↔ loadMac b k = mac := by
  simp [slice, macWire, loadMac, funext_iff, Fin.forall_fin_succ, List.range_succ]

@[simp] theorem length_halfWire (v : HalfWord) : (halfWire v).length = 2 := rfl

@[simp] theorem length_wordWire (v : Word) : (wordWire v).length = 4 := rfl

@[simp] theorem length_macWire (mac : MacAddress) : (macWire mac).length = 6 := rfl

@[simp] theorem length_wire (msg : ArpMessage) : msg.wire.length = 28 := rfl

theorem slice_message (b : Bytes) :
    slice b 0 28 = slice b 0 2 ++ slice b 2 2 ++ slice b 4 1 ++ slice b 5 1 ++ slice b 6 2 ++
      slice b 8 6 ++ slice b 14 4 ++ slice b 18 6 ++ slice b 24 4 := rfl

theorem slice_frame (b : Bytes) :
    slice b 0 60 = slice b 0 6 ++ slice b 6 6 ++ slice b 12 2 ++ slice b 14 28 ++
      slice b 42 18 := rfl

/-- **Bytes hold a message** exactly if they are the bytes of that message. -/
theorem slice_eq_wire (b : Bytes) (msg : ArpMessage) :
    slice b 0 28 = msg.wire ↔ HoldsMessage b ∧ messageAt b = msg := by
  have hbyte : ∀ k v, slice b k 1 = [v] ↔ b k = v := fun k v => by simp [slice]
  obtain ⟨opcode, senderMac, senderIp, targetMac, targetIp⟩ := msg
  rw [slice_message, ArpMessage.wire]
  -- the fields have the same lengths on both sides
  iterate 8 rw [List.append_eq_append_iff_of_size_eq_right (by simp)]
  simp only [hbyte, slice_eq_halfWire, slice_eq_wordWire, slice_eq_macWire, HoldsMessage, messageAt,
    ArpMessage.mk.injEq, and_assoc]

/-! ### Host and network byte order -/

/-- `is_big_endian` tells the byte order of the CPU. -/
def KnowsByteOrder (host : Host) : Prop :=
  isBigEndian host = host.cpuBigEndian

section ByteOrder

variable {host : Host} (hknows : KnowsByteOrder host)
include hknows

theorem ntohs_loadHalf (b : Bytes) (k : Nat) : ntohs host (loadHalf host b k) = netHalf b k := by
  rw [half_eq_iff]
  unfold ntohs loadHalf netHalf
  rw [hknows]
  cases host.cpuBigEndian
  · simp [bswap16, byteAt_append]
  · simp

theorem ntohl_loadWord (b : Bytes) (k : Nat) : ntohl host (loadWord host b k) = netWord b k := by
  unfold ntohl loadWord netWord
  rw [hknows]
  cases host.cpuBigEndian
  · simp [bswap32, byteAt_append]
  · simp

theorem slice_htons (v : HalfWord) : slice (halfBytes host (htons host v)) 0 2 = halfWire v := by
  unfold htons halfBytes
  rw [hknows]
  cases host.cpuBigEndian
  · simp [slice, halfWire, bswap16, byteAt_append, List.range_succ]
  · simp [slice, halfWire, List.range_succ]

theorem slice_htonl (v : Word) : slice (wordBytes host (htonl host v)) 0 4 = wordWire v := by
  unfold htonl wordBytes
  rw [hknows]
  cases host.cpuBigEndian
  · simp [slice, wordWire, bswap32, byteAt_append, List.range_succ]
  · simp [slice, wordWire, List.range_succ]

end ByteOrder

theorem slice_macBytes (mac : MacAddress) : slice (macBytes mac) 0 6 = macWire mac := rfl

/-- A hardware address is reversed on the way in and on the way out, or neither. -/
@[simp] theorem htonMac_ntohMac (host : Host) (mac : MacAddress) :
    htonMac host (ntohMac host mac) = mac := by
  unfold htonMac ntohMac
  cases isBigEndian host
  · simp [Fin.rev_rev]
  · simp

@[simp] theorem ntohMac_htonMac (host : Host) (mac : MacAddress) :
    ntohMac host (htonMac host mac) = mac :=
  htonMac_ntohMac host mac

/-! ### What is sent -/

/-- The message that `arp_build_frame` builds. -/
def builtMessage (host : Host) (opcode : HalfWord) (destHw : MacAddress) (destIp : Word) :
    ArpMessage where
  opcode := opcode
  senderMac := htonMac host host.mac
  senderIp := host.ownIpv4Addr
  targetMac := htonMac host destHw
  targetIp := destIp

section Sent

variable {host : Host} (hknows : KnowsByteOrder host)
include hknows

theorem slice_arpFrameBytes (opcode : HalfWord) (destHw : MacAddress) (destIp : Word)
    (behind : Bytes) :
    slice (arpFrameBytes host (arpBuildFrame host opcode destHw destIp) behind) 0 28 =
      (builtMessage host opcode destHw destIp).wire := by
  rw [slice_message, ArpMessage.wire]
  simp (disch := omega) only [arpFrameBytes, storeHalf, storeWord, storeMac, update_eq_memcpy,
    slice_memcpy, slice_memcpy_of_disjoint, Nat.sub_self]
  simp only [arpBuildFrame, builtMessage, slice_htons hknows, slice_htonl hknows, slice_macBytes]
  rfl

/-- **The frame that is sent.**  Its 60 bytes depend on nothing that lies in
memory behind the message. -/
theorem slice_fillFrame (destMac : MacAddress) (opcode : HalfWord) (destHw : MacAddress)
    (destIp : Word) (behind block : Bytes) :
    slice (fillFrame host destMac TYPE_ARP
        (arpFrameBytes host (arpBuildFrame host opcode destHw destIp) behind) sizeofArpFrame block)
      0 60 =
    frameWire (htonMac host destMac) (htonMac host host.mac)
      (builtMessage host opcode destHw destIp) := by
  have hpad : (lenPadding sizeofArpFrame).toNat = 18 := by decide
  have hlen : (paddedLen sizeofArpFrame).toNat = 46 := by decide
  have hsize : sizeofArpFrame.toNat = 28 := by decide
  have hne : lenPadding sizeofArpFrame ≠ 0 := by decide
  rw [slice_frame, frameWire]
  unfold fillFrame
  simp only [if_pos hne, hpad, hlen, hsize, memset_eq_memcpy, storeHalf, storeMac, sizeofEthernetFrame]
  simp (disch := omega) only [slice_memcpy, slice_memcpy_of_disjoint, Nat.sub_self,
    slice_arpFrameBytes hknows, slice_htons hknows, slice_macBytes]
  rfl

theorem ethernetSend_arp (havail : host.available = true) (destMac : MacAddress)
    (opcode : HalfWord) (destHw : MacAddress) (destIp : Word) (left : Leftover) :
    ethernetSend host destMac TYPE_ARP
        (arpFrameBytes host (arpBuildFrame host opcode destHw destIp) left.stack) sizeofArpFrame
        left.block =
      [frameWire (htonMac host destMac) (htonMac host host.mac)
        (builtMessage host opcode destHw destIp)] := by
  have hlen : ((BitVec.ofNat 32 sizeofEthernetFrame + paddedLen sizeofArpFrame).setWidth 16).toNat
      = 60 := by decide
  rw [← slice_fillFrame hknows destMac opcode destHw destIp left.stack left.block]
  unfold ethernetSend e1000SendPacket
  simp only [if_pos havail, hlen, slice, Nat.zero_add]

end Sent

/-! ### Requests and their answers -/

/-- The bytes hold a request for the address `ip`. -/
def IsRequestFor (ip : Word) (b : Bytes) : Prop :=
  HoldsMessage b ∧ (messageAt b).targetIp = ip ∧ (messageAt b).opcode = ARP_REQUEST

instance (ip : Word) (b : Bytes) : Decidable (IsRequestFor ip b) :=
  inferInstanceAs (Decidable (_ ∧ _))

/-- The reply to a request: the host names its own addresses to the sender. -/
def replyTo (host : Host) (msg : ArpMessage) : ArpMessage where
  opcode := ARP_REPLY
  senderMac := htonMac host host.mac
  senderIp := host.ownIpv4Addr
  targetMac := msg.senderMac
  targetIp := msg.senderIp

/-- The frame that takes the reply to the sender of the request. -/
def replyFrame (host : Host) (msg : ArpMessage) : Frame :=
  frameWire msg.senderMac (htonMac host host.mac) (replyTo host msg)

section Answers

variable {host : Host} (hknows : KnowsByteOrder host)
include hknows

theorem supported_iff (b : Bytes) : Supported host (arpFrameAt host b) ↔ HoldsMessage b := by
  unfold Supported HoldsMessage arpFrameAt
  simp only [ntohs_loadHalf hknows]
  tauto

theorem sender_arpFrameAt (b : Bytes) :
    sender host (arpFrameAt host b) = ((messageAt b).senderIp, ntohMac host (messageAt b).senderMac) := by
  simp only [sender, arpFrameAt, messageAt, ntohl_loadWord hknows]

theorem arpHandleRequest_eq (havail : host.available = true) (left : Leftover) (b : Bytes) :
    arpHandleRequest host left (arpFrameAt host b) = [replyFrame host (messageAt b)] := by
  rw [arpHandleRequest, ethernetSend_arp hknows havail]
  simp only [replyFrame, replyTo, builtMessage, arpFrameAt, messageAt, ntohl_loadWord hknows,
    htonMac_ntohMac]

/-- What is sent on a received frame, whatever the table holds. -/
theorem arpReceive_sent (havail : host.available = true) (clock : DoubleWord) (left : Leftover)
    (frame : EthernetFrame) (arpTable : Option ArpTable) :
    (arpReceive host clock left frame arpTable).2 =
      if IsRequestFor host.ownIpv4Addr frame.payload then
        [replyFrame host (messageAt frame.payload)]
      else [] := by
  have hdest : ntohl host (arpFrameAt host frame.payload).destIpAddress =
      (messageAt frame.payload).targetIp := ntohl_loadWord hknows _ _
  have hop : ntohs host (arpFrameAt host frame.payload).opcode =
      (messageAt frame.payload).opcode := ntohs_loadHalf hknows _ _
  by_cases hsup : Supported host (arpFrameAt host frame.payload)
  · have hiff : IsRequestFor host.ownIpv4Addr frame.payload ↔
        ntohl host (arpFrameAt host frame.payload).destIpAddress = host.ownIpv4Addr ∧
          ntohs host (arpFrameAt host frame.payload).opcode = ARP_REQUEST := by
      rw [hdest, hop]
      exact and_iff_right ((supported_iff hknows _).mp hsup)
    rw [arpReceive_sent_of_supported hsup, arpHandleRequest_eq hknows havail]
    exact if_congr hiff.symm rfl rfl
  · have hno : ¬ IsRequestFor host.ownIpv4Addr frame.payload := fun h =>
      hsup ((supported_iff hknows _).mpr h.1)
    rw [arpReceive_of_unsupported hsup, if_neg hno]

end Answers

/-- **Who is answered, and how.**  A frame is handed to the card exactly for a
request for the own address, and then it is the reply to that request. -/
theorem arpReceive_answers (host : Host) (hknows : KnowsByteOrder host)
    (havail : host.available = true) (clock : DoubleWord) (left : Leftover) (frame : EthernetFrame)
    (arpTable : Option ArpTable) :
    ((arpReceive host clock left frame arpTable).2 ≠ [] ↔
      IsRequestFor host.ownIpv4Addr frame.payload) ∧
    (IsRequestFor host.ownIpv4Addr frame.payload →
      (arpReceive host clock left frame arpTable).2 = [replyFrame host (messageAt frame.payload)] ∧
      (replyFrame host (messageAt frame.payload)).length = 60) := by
  rw [arpReceive_sent hknows havail]
  by_cases hreq : IsRequestFor host.ownIpv4Addr frame.payload
  · rw [if_pos hreq]
    exact ⟨⟨fun _ => hreq, fun _ => List.cons_ne_nil _ _⟩, fun _ => ⟨rfl, rfl⟩⟩
  · rw [if_neg hreq]
    exact ⟨⟨fun h => absurd rfl h, fun h => absurd h hreq⟩, fun h => absurd h hreq⟩

/-- The probe of a machine 10.0.2.2 for the address 10.0.2.10. -/
def requestFrame : EthernetFrame where
  destMac := BROADCAST_MAC
  srcMac := ![0x02, 0, 0, 0, 0, 1]
  etherType := 0x0608
  payload := fun k => [0x00, 0x01, 0x08, 0x00, 6, 4, 0x00, 0x01, 0x02, 0, 0, 0, 0, 1, 10, 0, 2, 2,
    0, 0, 0, 0, 0, 0, 10, 0, 2, 10].getD k 0

/-- The request is answered, even before `routing_init`. -/
theorem request_answered :
    (arpReceive versatileHost 0 ⟨fun _ => 0, fun _ => 0⟩ requestFrame none).2 =
        [replyFrame versatileHost (messageAt requestFrame.payload)] ∧
      (replyFrame versatileHost (messageAt requestFrame.payload)).length = 60 :=
  (arpReceive_answers versatileHost rfl rfl 0 _ requestFrame none).2 (by decide)

end Network
end Ninjastorms
