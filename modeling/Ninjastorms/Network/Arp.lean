import Ninjastorms.Network.Routing

/-!
# ARP

`kernel/network/arp.c`, the dispatch of `kernel/network/pdu_handler.c`, and
`arp_table_get_mac`, the function of `routing.c` that sends a request.

An operation returns the table it leaves and the frames that are sent.  The
sending functions are given in `Leftover` the bytes that they find in memory
and have not written themselves.

`arpReceive_cases` says what a received frame can do to the table; everything
that later modules prove about runs of frames rests on it.
-/

namespace Ninjastorms
namespace Network

open Libc Lib.TableScan

/-- `ARP_REQUEST`. -/
def ARP_REQUEST : HalfWord := 1

/-- `ARP_REPLY`. -/
def ARP_REPLY : HalfWord := 2

/-- `HTYPE_ETHERNET`. -/
def HTYPE_ETHERNET : HalfWord := 1

/-- `IPV4_ADDR_LEN`. -/
def IPV4_ADDR_LEN : Byte := 4

/-- `arp_frame_t`: the multi-byte fields as the CPU loads them. -/
structure ArpFrame where
  hardwareType : HalfWord
  protocolType : HalfWord
  hardwareAddrLen : Byte
  protocolAddrLen : Byte
  opcode : HalfWord
  srcHardwareAddr : MacAddress
  srcIpAddress : Word
  destHardwareAddr : MacAddress
  destIpAddress : Word

/-- `sizeof(arp_frame_t)`. -/
def sizeofArpFrame : Word := 28

/-- The ARP frame that a pointer to these bytes points to. -/
def arpFrameAt (host : Host) (b : Bytes) : ArpFrame where
  hardwareType := loadHalf host b 0
  protocolType := loadHalf host b 2
  hardwareAddrLen := b 4
  protocolAddrLen := b 5
  opcode := loadHalf host b 6
  srcHardwareAddr := loadMac b 8
  srcIpAddress := loadWord host b 14
  destHardwareAddr := loadMac b 18
  destIpAddress := loadWord host b 24

/-- The bytes from a pointer to the ARP frame on; `behind` are those that lie
there apart from the frame. -/
def arpFrameBytes (host : Host) (frame : ArpFrame) (behind : Bytes) : Bytes :=
  let b := storeHalf host behind 0 frame.hardwareType
  let b := storeHalf host b 2 frame.protocolType
  let b := Function.update b 4 frame.hardwareAddrLen
  let b := Function.update b 5 frame.protocolAddrLen
  let b := storeHalf host b 6 frame.opcode
  let b := storeMac b 8 frame.srcHardwareAddr
  let b := storeWord host b 14 frame.srcIpAddress
  let b := storeMac b 18 frame.destHardwareAddr
  storeWord host b 24 frame.destIpAddress

/-- Bytes in memory that the sending functions have not written: on the stack
behind the ARP frame, and in the block that `malloc` returns. -/
structure Leftover where
  stack : Bytes
  block : Bytes

/-- `arp_build_frame`. -/
def arpBuildFrame (host : Host) (opcode : HalfWord) (destHw : MacAddress) (destIp : Word) :
    ArpFrame where
  hardwareType := htons host HTYPE_ETHERNET
  protocolType := htons host TYPE_IPv4
  hardwareAddrLen := ETH_MAC_ADDRESS_LENGTH
  protocolAddrLen := IPV4_ADDR_LEN
  opcode := htons host opcode
  srcHardwareAddr := htonMac host host.mac
  srcIpAddress := htonl host host.ownIpv4Addr
  destHardwareAddr := htonMac host destHw
  destIpAddress := htonl host destIp

/-- `arp_handle_request`. -/
def arpHandleRequest (host : Host) (left : Leftover) (frame : ArpFrame) : List Frame :=
  let arpFrame := arpBuildFrame host ARP_REPLY (ntohMac host frame.srcHardwareAddr)
    (ntohl host frame.srcIpAddress)
  ethernetSend host (ntohMac host frame.srcHardwareAddr) TYPE_ARP
    (arpFrameBytes host arpFrame left.stack) sizeofArpFrame left.block

/-- `arp_receive`. -/
def arpReceive (host : Host) (clock : DoubleWord) (left : Leftover) (frame : EthernetFrame)
    (arpTable : Option ArpTable) : Option ArpTable × List Frame :=
  let arpFrame := arpFrameAt host frame.payload
  if ntohs host arpFrame.hardwareType ≠ HTYPE_ETHERNET ∨
      arpFrame.hardwareAddrLen ≠ ETH_MAC_ADDRESS_LENGTH then
    (arpTable, [])
  else if ntohs host arpFrame.protocolType ≠ TYPE_IPv4 ∨
      arpFrame.protocolAddrLen ≠ IPV4_ADDR_LEN then
    (arpTable, [])
  else
    let (mergeFlag, arpTable) := arpTableUpdate clock (ntohMac host arpFrame.srcHardwareAddr)
      (ntohl host arpFrame.srcIpAddress) arpTable
    if ntohl host arpFrame.destIpAddress = host.ownIpv4Addr then
      let arpTable :=
        if !mergeFlag then
          arpTableAddEntry clock (ntohMac host arpFrame.srcHardwareAddr)
            (ntohl host arpFrame.srcIpAddress) arpTable
        else arpTable
      if ntohs host arpFrame.opcode = ARP_REQUEST then
        (arpTable, arpHandleRequest host left arpFrame)
      else
        (arpTable, [])
    else
      (arpTable, [])

/-- `arp_send_request`. -/
def arpSendRequest (host : Host) (left : Leftover) (ip : Word) : List Frame :=
  let arpFrame := arpBuildFrame host ARP_REQUEST NULL_MAC ip
  ethernetSend host BROADCAST_MAC TYPE_ARP (arpFrameBytes host arpFrame left.stack)
    sizeofArpFrame left.block

/-- `arp_table_get_mac`: its result, the table it leaves and what is sent. -/
def arpTableGetMac (host : Host) (clock : DoubleWord) (left : Leftover) (ip : Word) :
    Option ArpTable → MacAddress × Option ArpTable × List Frame
  | none => (NULL_MAC, none, [])
  | some arpTable =>
      let (mac, arpTable) := arpTableLookup clock ip (some arpTable)
      if macAddressEqual NULL_MAC mac then
        (NULL_MAC, arpTable, arpSendRequest host left ip)
      else
        (mac, arpTable, [])

/-- `MAX_PACKET_SIZE`. -/
def MAX_PACKET_SIZE : Nat := 8192

/-- `raw_packet_t`: the stored length and the bytes from `data` on, of which
`MAX_PACKET_SIZE` belong to the packet. -/
structure RawPacket where
  length : HalfWord
  data : Bytes

/-- `start_pdu_encapsulation`. -/
def startPduEncapsulation (host : Host) (clock : DoubleWord) (left : Leftover) (buf : RawPacket)
    (arpTable : Option ArpTable) : Option ArpTable × List Frame :=
  let frame := ethernetFrameAt host buf.data
  if ntohs host frame.etherType = TYPE_ARP then
    arpReceive host clock left frame arpTable
  else
    (arpTable, [])

/-! ### What a received frame does to the table -/

/-- The type and length checks of `arp_receive`. -/
def Supported (host : Host) (frame : ArpFrame) : Prop :=
  (ntohs host frame.hardwareType = HTYPE_ETHERNET ∧
    frame.hardwareAddrLen = ETH_MAC_ADDRESS_LENGTH) ∧
  ntohs host frame.protocolType = TYPE_IPv4 ∧ frame.protocolAddrLen = IPV4_ADDR_LEN

instance (host : Host) (frame : ArpFrame) : Decidable (Supported host frame) :=
  inferInstanceAs (Decidable (_ ∧ _))

/-- Whoever sent the frame, in host order. -/
def sender (host : Host) (frame : ArpFrame) : Word × MacAddress :=
  (ntohl host frame.srcIpAddress, ntohMac host frame.srcHardwareAddr)

theorem arpReceive_of_unsupported {host : Host} {frame : EthernetFrame}
    (h : ¬ Supported host (arpFrameAt host frame.payload)) (clock : DoubleWord) (left : Leftover)
    (arpTable : Option ArpTable) :
    arpReceive host clock left frame arpTable = (arpTable, []) := by
  unfold arpReceive
  simp only
  split
  · rfl
  · rename_i hhw
    split
    · rfl
    · rename_i hproto
      push Not at hhw hproto
      exact absurd ⟨hhw, hproto⟩ h

theorem arpReceive_of_supported {host : Host} {frame : EthernetFrame}
    (h : Supported host (arpFrameAt host frame.payload)) (clock : DoubleWord) (left : Leftover)
    (arpTable : Option ArpTable) :
    arpReceive host clock left frame arpTable =
      let arpFrame := arpFrameAt host frame.payload
      let (ip, mac) := sender host arpFrame
      let (mergeFlag, arpTable) := arpTableUpdate clock mac ip arpTable
      if ntohl host arpFrame.destIpAddress = host.ownIpv4Addr then
        (if mergeFlag then arpTable else arpTableAddEntry clock mac ip arpTable,
          if ntohs host arpFrame.opcode = ARP_REQUEST then arpHandleRequest host left arpFrame
          else [])
      else
        (arpTable, []) := by
  obtain ⟨⟨hhw, hlen⟩, hproto, hplen⟩ := h
  unfold arpReceive
  simp only [hhw, hlen, hproto, hplen, ne_eq, not_true_eq_false, or_self, if_false, sender]
  by_cases hmerge : (arpTableUpdate clock
      (ntohMac host (arpFrameAt host frame.payload).srcHardwareAddr)
      (ntohl host (arpFrameAt host frame.payload).srcIpAddress) arpTable).1 = true <;>
    by_cases hop : ntohs host (arpFrameAt host frame.payload).opcode = ARP_REQUEST <;>
    simp [hmerge, hop]

/-- What is sent on a supported frame does not depend on the table. -/
theorem arpReceive_sent_of_supported {host : Host} {frame : EthernetFrame}
    (h : Supported host (arpFrameAt host frame.payload)) (clock : DoubleWord) (left : Leftover)
    (arpTable : Option ArpTable) :
    (arpReceive host clock left frame arpTable).2 =
      if ntohl host (arpFrameAt host frame.payload).destIpAddress = host.ownIpv4Addr ∧
          ntohs host (arpFrameAt host frame.payload).opcode = ARP_REQUEST then
        arpHandleRequest host left (arpFrameAt host frame.payload)
      else [] := by
  obtain ⟨⟨hhw, hlen⟩, hproto, hplen⟩ := h
  unfold arpReceive
  extract_lets arpFrame
  rw [if_neg (by simp [arpFrame, hhw, hlen]), if_neg (by simp [arpFrame, hproto, hplen])]
  split
  rename_i mergeFlag updated hupdate
  by_cases hdest : ntohl host arpFrame.destIpAddress = host.ownIpv4Addr
  · rw [if_pos hdest]
    by_cases hop : ntohs host arpFrame.opcode = ARP_REQUEST
    · rw [if_pos hop]
      exact (if_pos ⟨hdest, hop⟩).symm
    · rw [if_neg hop]
      exact (if_neg fun hboth => hop hboth.2).symm
  · rw [if_neg hdest]
    exact (if_neg fun hboth => hdest hboth.1).symm

/-- **What a supported frame does to the table.**  All entries are touched; then
the last hit gets the new address, or, if there is none and the frame is meant
for this host, the entry used longest ago is replaced. -/
theorem arpReceive_cases {host : Host} {frame : EthernetFrame}
    (h : Supported host (arpFrameAt host frame.payload)) (clock : DoubleWord) (left : Leftover)
    (arpTable : ArpTable) :
    let ip := (sender host (arpFrameAt host frame.payload)).1
    let mac := (sender host (arpFrameAt host frame.payload)).2
    let touched : ArpTable := fun i => touch clock ip (arpTable i)
    (∃ i, Hit clock ip (arpTable i) ∧ (∀ j, i < j → ¬ Hit clock ip (arpTable j)) ∧
      (arpReceive host clock left frame (some arpTable)).1 =
        some (Function.update touched i ⟨ip, mac, clockSeconds clock⟩)) ∨
    ((∀ i, ¬ Hit clock ip (arpTable i)) ∧
      ((ntohl host (arpFrameAt host frame.payload).destIpAddress ≠ host.ownIpv4Addr ∧
          (arpReceive host clock left frame (some arpTable)).1 = some touched) ∨
        (ntohl host (arpFrameAt host frame.payload).destIpAddress = host.ownIpv4Addr ∧
          (arpReceive host clock left frame (some arpTable)).1 =
            some (Function.update touched (arpTableSlot touched (List.finRange 10) 0)
              ⟨ip, mac, clockSeconds clock⟩)))) := by
  intro ip mac touched
  rw [arpReceive_of_supported h]
  rcases lastHit_cases (Hit clock ip) arpTable with ⟨hres, hnone⟩ | ⟨i, hres, hhit, hlast⟩
  · right
    have hupdate : arpTableUpdate clock mac ip (some arpTable) = (false, some touched) := by
      rw [arpTableUpdate, arpTableFind_some, hres]
    refine ⟨hnone, ?_⟩
    simp only [show sender host (arpFrameAt host frame.payload) = (ip, mac) from rfl, hupdate,
      Bool.false_eq_true, if_false]
    -- an unknown sender gets an entry only if the frame is meant for this host
    by_cases hdest : ntohl host (arpFrameAt host frame.payload).destIpAddress = host.ownIpv4Addr
    · right
      rw [if_pos hdest]
      exact ⟨hdest, rfl⟩
    · left
      rw [if_neg hdest]
      exact ⟨hdest, rfl⟩
  · left
    have hentry : ({ touched i with mac := mac } : ArpTableEntry) = ⟨ip, mac, clockSeconds clock⟩ := by
      simp only [touched, touch_of_hit hhit, hhit.2]
    have hupdate : arpTableUpdate clock mac ip (some arpTable) =
        (true, some (Function.update touched i ⟨ip, mac, clockSeconds clock⟩)) := by
      rw [arpTableUpdate, arpTableFind_some, hres]
      simp only [touched, ← hentry]
    refine ⟨i, hhit, hlast, ?_⟩
    simp only [show sender host (arpFrameAt host frame.payload) = (ip, mac) from rfl, hupdate,
      if_true]
    by_cases hdest : ntohl host (arpFrameAt host frame.payload).destIpAddress = host.ownIpv4Addr
    · rw [if_pos hdest]
    · rw [if_neg hdest]

/-- The table after a lookup: every entry is touched. -/
theorem arpTableLookup_table (clock : DoubleWord) (ip : Word) (arpTable : ArpTable) :
    (arpTableLookup clock ip (some arpTable)).2 = some fun i => touch clock ip (arpTable i) := by
  rw [arpTableLookup, arpTableFind_some]
  cases lastHit (Hit clock ip) arpTable with
  | none => rfl
  | some i => rfl

/-- A lookup returns the address of the last hit. -/
theorem arpTableLookup_mac (clock : DoubleWord) (ip : Word) (arpTable : ArpTable) :
    ((∀ i, ¬ Hit clock ip (arpTable i)) ∧
      (arpTableLookup clock ip (some arpTable)).1 = NULL_MAC) ∨
    ∃ i, Hit clock ip (arpTable i) ∧ (∀ j, i < j → ¬ Hit clock ip (arpTable j)) ∧
      (arpTableLookup clock ip (some arpTable)).1 = (arpTable i).mac := by
  rw [arpTableLookup, arpTableFind_some]
  rcases lastHit_cases (Hit clock ip) arpTable with ⟨hres, hnone⟩ | ⟨i, hres, hhit, hlast⟩
  · left
    rw [hres]
    exact ⟨hnone, rfl⟩
  · right
    rw [hres]
    refine ⟨i, hhit, hlast, ?_⟩
    show (touch clock ip (arpTable i)).mac = (arpTable i).mac
    rw [touch_of_hit hhit]

/-- `arp_table_get_mac` does to the table what a lookup does. -/
theorem arpTableGetMac_table (host : Host) (clock : DoubleWord) (left : Leftover) (ip : Word)
    (arpTable : ArpTable) :
    (arpTableGetMac host clock left ip (some arpTable)).2.1 =
      some fun i => touch clock ip (arpTable i) := by
  rw [← arpTableLookup_table]
  unfold arpTableGetMac
  by_cases hmac : macAddressEqual NULL_MAC (arpTableLookup clock ip (some arpTable)).1 = true
  · simp only [hmac, if_true]
  · simp only [hmac, Bool.false_eq_true, if_false]

end Network
end Ninjastorms
