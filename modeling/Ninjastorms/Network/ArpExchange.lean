import Ninjastorms.Network.ArpRuns
import Ninjastorms.Network.ArpWire

/-!
# An ARP exchange between two hosts

A host asks for the address of another one, the other one answers, and both
have learnt from the frame that they have received.  Each of them has its own
byte order, its own table and its own clock.

A frame that the network delivers lies in the slot of a packet queue:
`Delivers` says that the slot holds its bytes, and nothing about what lies
behind them.  `arpTableLookup_learned` is what the table of the receiver answers
afterwards, whatever it held before.
-/

namespace Ninjastorms
namespace Network

open Libc

/-- The packet is the frame, unchanged. -/
def Delivers (frame : Frame) (p : RawPacket) : Prop :=
  p.length.toNat = frame.length ∧ slice p.data 0 frame.length = frame

/-- The clock has moved on by at most `MAX_ARP_TABLE_AGE` seconds. -/
def WithinAge (clock later : DoubleWord) : Prop :=
  clock ≤ later ∧ clockSeconds later - clockSeconds clock ≤ MAX_ARP_TABLE_AGE

/-- The address of the card as it is transmitted: what `mac` and
`e1000_get_mac` hold in the byte order of the host. -/
def hardwareAddress (host : Host) : MacAddress :=
  htonMac host host.mac

/-! ### What a delivered frame holds -/

/-- **A frame has one reading.** -/
theorem reads_frameWire {b : Bytes} {destMac srcMac : MacAddress} {msg : ArpMessage}
    (h : slice b 0 60 = frameWire destMac srcMac msg) :
    netHalf b 12 = TYPE_ARP ∧ HoldsMessage (fun k => b (14 + k)) ∧
      messageAt (fun k => b (14 + k)) = msg := by
  rw [slice_frame, frameWire] at h
  iterate 4 rw [List.append_eq_append_iff_of_size_eq_right (by simp)] at h
  obtain ⟨⟨⟨-, htype⟩, hwire⟩, -⟩ := h
  have hpayload : slice (fun k => b (14 + k)) 0 28 = msg.wire := by
    rw [← hwire]
    exact slice_congr fun k _ => by rw [Nat.zero_add]
  exact ⟨(slice_eq_halfWire b 12 TYPE_ARP).mp htype, (slice_eq_wire _ msg).mp hpayload⟩

section Delivered

variable {host : Host} {p : RawPacket} {destMac srcMac : MacAddress} {msg : ArpMessage}

/-- A delivered ARP frame is handed to `arp_receive`. -/
theorem startPdu_of_delivered (hknows : KnowsByteOrder host)
    (h : Delivers (frameWire destMac srcMac msg) p) (clock : DoubleWord) (left : Leftover)
    (arpTable : Option ArpTable) :
    ∃ frame : EthernetFrame, HoldsMessage frame.payload ∧ messageAt frame.payload = msg ∧
      startPduEncapsulation host clock left p arpTable =
        arpReceive host clock left frame arpTable := by
  obtain ⟨htype, hholds, hmsg⟩ := reads_frameWire h.2
  refine ⟨ethernetFrameAt host p.data, hholds, hmsg, ?_⟩
  have htype' : ntohs host (ethernetFrameAt host p.data).etherType = TYPE_ARP := by
    rw [← htype]
    exact ntohs_loadHalf hknows p.data 12
  rw [startPduEncapsulation, if_pos htype']

end Delivered

/-! ### What the receiver has learnt -/

/-- An entry can be used for `MAX_ARP_TABLE_AGE` seconds after it was written. -/
theorem not_expired_within {clock later : DoubleWord} (h : WithinAge clock later)
    {entry : ArpTableEntry} (htime : entry.entryTime = clockSeconds clock) :
    ¬ Expired later entry := by
  rintro ⟨-, hage⟩
  rw [htime] at hage
  exact absurd h.2 (BitVec.not_le.mpr hage)

/-- **Learning.**  A frame meant for this host leaves its sender in the table,
and a lookup finds it as long as it has not expired.  Free slots hold the
address 0, which is why a sender of that address is left out. -/
theorem arpTableLookup_learned {host : Host} {frame : EthernetFrame}
    (hsup : Supported host (arpFrameAt host frame.payload))
    (hdest : ntohl host (arpFrameAt host frame.payload).destIpAddress = host.ownIpv4Addr)
    (hip : (sender host (arpFrameAt host frame.payload)).1 ≠ 0) {clock later : DoubleWord}
    (hlater : WithinAge clock later) (left : Leftover) (arpTable : ArpTable) :
    (arpTableLookup later (sender host (arpFrameAt host frame.payload)).1
        (arpReceive host clock left frame (some arpTable)).1).1 =
      (sender host (arpFrameAt host frame.payload)).2 := by
  have hcases := arpReceive_cases hsup clock left arpTable
  generalize sender host (arpFrameAt host frame.payload) = source at hip hcases ⊢
  obtain ⟨ip, mac⟩ := source
  -- the entry is written to a slot `k` behind which no other holds the address
  obtain ⟨k, htable, hlast⟩ : ∃ k, (arpReceive host clock left frame (some arpTable)).1 =
      some (Function.update (fun i => touch clock ip (arpTable i)) k
        ⟨ip, mac, clockSeconds clock⟩) ∧ ∀ j, k < j → ¬ Hit clock ip (arpTable j) := by
    rcases hcases with ⟨k, -, hlast, htable⟩ | ⟨hnone, ⟨hother, -⟩ | ⟨-, htable⟩⟩
    · exact ⟨k, htable, hlast⟩
    · exact absurd hdest hother
    · exact ⟨_, htable, fun j _ => hnone j⟩
  have hhit : Hit later ip (Function.update (fun i => touch clock ip (arpTable i)) k
      ⟨ip, mac, clockSeconds clock⟩ k) := by
    rw [Function.update_self]
    exact ⟨not_expired_within hlater rfl, rfl⟩
  rw [htable]
  rcases arpTableLookup_mac later ip (Function.update (fun i => touch clock ip (arpTable i)) k
      ⟨ip, mac, clockSeconds clock⟩) with ⟨hnone, -⟩ | ⟨i, hi, hilast, hmac⟩
  · exact absurd hhit (hnone k)
  · rw [hmac]
    rcases lt_trichotomy i k with hlt | rfl | hgt
    · exact absurd hhit (hilast k hlt)
    · rw [Function.update_self]
    · have htouched := hi.2
      rw [Function.update_of_ne hgt.ne'] at htouched
      exact absurd (ip_touch_ne (hlast i hgt) htouched) hip

/-- What a delivered message teaches the host it is meant for. -/
theorem lookup_of_delivered {host : Host} (hknows : KnowsByteOrder host) {frame : EthernetFrame}
    (hholds : HoldsMessage frame.payload)
    (htarget : (messageAt frame.payload).targetIp = host.ownIpv4Addr)
    (hsource : (messageAt frame.payload).senderIp ≠ 0) {clock later : DoubleWord}
    (hlater : WithinAge clock later) (left : Leftover) (arpTable : ArpTable) :
    htonMac host (arpTableLookup later (messageAt frame.payload).senderIp
        (arpReceive host clock left frame (some arpTable)).1).1 =
      (messageAt frame.payload).senderMac := by
  have hsender := sender_arpFrameAt hknows frame.payload
  have hlearned := arpTableLookup_learned ((supported_iff hknows _).mpr hholds)
    ((ntohl_loadWord hknows _ _).trans htarget) (by rw [hsender]; exact hsource) hlater left arpTable
  rw [hsender] at hlearned
  rw [hlearned, htonMac_ntohMac]

/-! ### The exchange -/

/-- The looked-up address is that of the peer's card: the same six bytes are
transmitted, and two hosts of the same byte order hold it alike. -/
def IsAddressOf (peer host : Host) (mac : MacAddress) : Prop :=
  htonMac host mac = hardwareAddress peer ∧
    (isBigEndian host = isBigEndian peer → mac = peer.mac)

theorem isAddressOf_of_transmitted {peer host : Host} {mac : MacAddress}
    (h : htonMac host mac = hardwareAddress peer) : IsAddressOf peer host mac := by
  refine ⟨h, fun horder => ?_⟩
  have hback : ntohMac host = ntohMac peer := by
    funext m
    rw [ntohMac, ntohMac, horder]
  rw [← ntohMac_htonMac host mac, h, hback, hardwareAddress, ntohMac_htonMac]

/-- The request is one frame, sent to everybody. -/
theorem arpSendRequest_eq {host : Host} (hknows : KnowsByteOrder host)
    (havail : host.available = true) (left : Leftover) (ip : Word) :
    arpSendRequest host left ip =
      [frameWire (htonMac host BROADCAST_MAC) (hardwareAddress host)
        (builtMessage host ARP_REQUEST NULL_MAC ip)] := by
  rw [arpSendRequest, ethernetSend_arp hknows havail]
  rfl

/-- **The exchange.**  `A` asks for the address of `B`; `B` answers with one
frame, `A` with none, and then each finds the other one in its table. -/
theorem arp_exchange (A B : Host) (hknowsA : KnowsByteOrder A) (hknowsB : KnowsByteOrder B)
    (havailA : A.available = true) (havailB : B.available = true)
    (hipA : A.ownIpv4Addr ≠ 0) (hipB : B.ownIpv4Addr ≠ 0)
    (clockA clockB : DoubleWord) (leftSent leftA leftB : Leftover) (tableA tableB : ArpTable) :
    ∃ request, arpSendRequest A leftSent B.ownIpv4Addr = [request] ∧ request.length = 60 ∧
      ∀ p, Delivers request p →
      ∃ reply, (startPduEncapsulation B clockB leftB p (some tableB)).2 = [reply] ∧
        reply.length = 60 ∧ ∀ q, Delivers reply q →
          (startPduEncapsulation A clockA leftA q (some tableA)).2 = [] ∧
          (∀ later, WithinAge clockA later → IsAddressOf B A
            (arpTableLookup later B.ownIpv4Addr
              (startPduEncapsulation A clockA leftA q (some tableA)).1).1) ∧
          (∀ later, WithinAge clockB later → IsAddressOf A B
            (arpTableLookup later A.ownIpv4Addr
              (startPduEncapsulation B clockB leftB p (some tableB)).1).1) := by
  refine ⟨_, arpSendRequest_eq hknowsA havailA leftSent B.ownIpv4Addr, rfl,
    fun p hp => ?_⟩
  obtain ⟨onB, hholdsB, hmsgB, hstartB⟩ := startPdu_of_delivered hknowsB hp clockB leftB (some tableB)
  -- `B` finds a request for its own address
  have hrequest : IsRequestFor B.ownIpv4Addr onB.payload := by
    refine ⟨hholdsB, ?_, ?_⟩
    · rw [hmsgB]
      rfl
    · rw [hmsgB]
      rfl
  refine ⟨replyFrame B (messageAt onB.payload), ?_, rfl, fun q hq => ?_⟩
  · rw [hstartB, arpReceive_sent hknowsB havailB, if_pos hrequest]
  · rw [replyFrame] at hq
    obtain ⟨onA, hholdsA, hmsgA, hstartA⟩ :=
      startPdu_of_delivered hknowsA hq clockA leftA (some tableA)
    have htargetA : (messageAt onA.payload).targetIp = A.ownIpv4Addr := by
      rw [hmsgA, replyTo, hmsgB]
      rfl
    refine ⟨?_, fun later hlater => ?_, fun later hlater => ?_⟩
    · -- a reply is not a request
      have hno : ¬ IsRequestFor A.ownIpv4Addr onA.payload := by
        rintro ⟨-, -, hop⟩
        rw [hmsgA] at hop
        exact absurd hop (show ARP_REPLY ≠ ARP_REQUEST by decide)
      rw [hstartA, arpReceive_sent hknowsA havailA, if_neg hno]
    · have hlookup := lookup_of_delivered hknowsA hholdsA htargetA (by rw [hmsgA]; exact hipB) hlater
        leftA tableA
      rw [hmsgA] at hlookup
      rw [hstartA]
      exact isAddressOf_of_transmitted hlookup
    · have hlookup := lookup_of_delivered hknowsB hholdsB hrequest.2.1 (by rw [hmsgB]; exact hipA)
        hlater leftB tableB
      rw [hmsgB] at hlookup
      rw [hstartB]
      exact isAddressOf_of_transmitted hlookup

/-- A big-endian machine with the address 10.0.2.2. -/
def bigEndianHost : Host where
  cpuBigEndian := true
  sysCfgData2 := 2
  ownIpv4Addr := 0x0A000202
  mac := ![0x02, 0, 0, 0, 0, 1]
  available := true

/-- The frame in a slot of a queue. -/
def rawPacketOf (frame : Frame) : RawPacket where
  length := BitVec.ofNat 16 frame.length
  data := fun k => frame.getD k 0

theorem delivers_rawPacketOf {frame : Frame} (h : frame.length < 2 ^ 16) :
    Delivers frame (rawPacketOf frame) := by
  refine ⟨by rw [rawPacketOf, BitVec.toNat_ofNat, Nat.mod_eq_of_lt h], ?_⟩
  apply List.ext_getElem
  · rw [length_slice]
  · intro k _ hk
    simp [slice, rawPacketOf, hk]

/-- The two machines, of different byte orders, resolve each other; both look up
the other one 300 seconds later. -/
theorem versatile_resolves_bigEndian :
    let left : Leftover := ⟨fun _ => 0, fun _ => 0⟩
    let free : ArpTable := fun _ => ARP_NULL_ENTRY
    ∃ request reply, arpSendRequest versatileHost left 0x0A000202 = [request] ∧
      (startPduEncapsulation bigEndianHost 2000 left (rawPacketOf request) (some free)).2 = [reply] ∧
      (startPduEncapsulation versatileHost 1000 left (rawPacketOf reply) (some free)).2 = [] ∧
      IsAddressOf bigEndianHost versatileHost (arpTableLookup 301000 0x0A000202
        (startPduEncapsulation versatileHost 1000 left (rawPacketOf reply) (some free)).1).1 ∧
      IsAddressOf versatileHost bigEndianHost (arpTableLookup 302000 OWN_IPV4_ADDR
        (startPduEncapsulation bigEndianHost 2000 left (rawPacketOf request) (some free)).1).1 := by
  intro left free
  obtain ⟨request, hrequest, hlen, hanswer⟩ := arp_exchange versatileHost bigEndianHost rfl rfl rfl
    rfl (by decide) (by decide) 1000 2000 left left left free free
  obtain ⟨reply, hreply, hlen', hend⟩ :=
    hanswer (rawPacketOf request) (delivers_rawPacketOf (by rw [hlen]; decide))
  obtain ⟨hsilent, honA, honB⟩ := hend (rawPacketOf reply) (delivers_rawPacketOf (by rw [hlen']; decide))
  exact ⟨request, reply, hrequest, hreply, hsilent, honA 301000 ⟨by decide, by decide⟩,
    honB 302000 ⟨by decide, by decide⟩⟩

end Network
end Ninjastorms
