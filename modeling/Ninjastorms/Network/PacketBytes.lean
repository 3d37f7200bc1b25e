import Ninjastorms.Network.Arp

/-!
# Through which bytes a packet acts

`start_pdu_encapsulation` never looks at the stored length.  A packet that is
shorter than an ARP frame is read on into what an earlier packet has left behind
in the slot.

`ActsThroughOwnBytes` compares two packets that agree on their own bytes, and
asks a packet too short for an ARP frame to do nothing.  It holds
(`actsThroughOwnBytes_iff`) exactly of the packets that are long enough, and of
those whose own bytes already fail the checks on the header.
-/

namespace Ninjastorms
namespace Network

open Libc

/-- An Ethernet header and a whole ARP frame. -/
def arpPacketLength : Nat := 42

/-- The two packets have the same length and the same first `length` bytes. -/
def SameOwnBytes (p q : RawPacket) : Prop :=
  q.length = p.length ∧ ∀ k < p.length.toNat, q.data k = p.data k

/-- The packet acts through its own bytes only, and not at all if it is too
short to hold an ARP frame. -/
def ActsThroughOwnBytes (host : Host) (p : RawPacket) : Prop :=
  ∀ q, SameOwnBytes p q → ∀ clock left arpTable,
    startPduEncapsulation host clock left q arpTable =
      startPduEncapsulation host clock left p arpTable ∧
    (p.length.toNat < arpPacketLength →
      startPduEncapsulation host clock left p arpTable = (arpTable, []))

/-- The bytes that the checks on the header ask for: the type of the frame, the
types and the lengths of the addresses. -/
def arpHeader (host : Host) : Bytes
  | 12 => halfBytes host (htons host TYPE_ARP) 0
  | 13 => halfBytes host (htons host TYPE_ARP) 1
  | 14 => halfBytes host (htons host HTYPE_ETHERNET) 0
  | 15 => halfBytes host (htons host HTYPE_ETHERNET) 1
  | 16 => halfBytes host (htons host TYPE_IPv4) 0
  | 17 => halfBytes host (htons host TYPE_IPv4) 1
  | 18 => ETH_MAC_ADDRESS_LENGTH
  | 19 => IPV4_ADDR_LEN
  | _ => 0

/-- The bytes have the header of an ARP frame. -/
def HasArpHeader (host : Host) (b : Bytes) : Prop :=
  ∀ k, 12 ≤ k → k < 20 → b k = arpHeader host k

variable {host : Host} {clock : DoubleWord} {left : Leftover} {arpTable : Option ArpTable}

/-! ### What is read -/

/-- The checks are passed exactly by the bytes of `arpHeader`. -/
theorem hasArpHeader_iff (host : Host) (b : Bytes) :
    HasArpHeader host b ↔ ntohs host (ethernetFrameAt host b).etherType = TYPE_ARP ∧
      Supported host (arpFrameAt host (ethernetFrameAt host b).payload) := by
  simp only [ethernetFrameAt, arpFrameAt, Supported, sizeofEthernetFrame, ntohs_eq_iff,
    loadHalf_eq_iff]
  constructor
  · intro h
    exact ⟨⟨h 12 (by omega) (by omega), h 13 (by omega) (by omega)⟩,
      ⟨⟨h 14 (by omega) (by omega), h 15 (by omega) (by omega)⟩, h 18 (by omega) (by omega)⟩,
      ⟨h 16 (by omega) (by omega), h 17 (by omega) (by omega)⟩, h 19 (by omega) (by omega)⟩
  · rintro ⟨⟨h12, h13⟩, ⟨⟨h14, h15⟩, h18⟩, ⟨h16, h17⟩, h19⟩ k hlow hhigh
    obtain rfl | rfl | rfl | rfl | rfl | rfl | rfl | rfl : k = 12 ∨ k = 13 ∨ k = 14 ∨ k = 15 ∨
        k = 16 ∨ k = 17 ∨ k = 18 ∨ k = 19 := by omega
    · exact h12
    · exact h13
    · exact h14
    · exact h15
    · exact h16
    · exact h17
    · exact h18
    · exact h19

/-- Without the header nothing happens. -/
theorem startPdu_of_no_header {p : RawPacket} (h : ¬ HasArpHeader host p.data) :
    startPduEncapsulation host clock left p arpTable = (arpTable, []) := by
  rw [hasArpHeader_iff] at h
  rw [startPduEncapsulation]
  by_cases htype : ntohs host (ethernetFrameAt host p.data).etherType = TYPE_ARP
  · rw [if_pos htype]
    exact arpReceive_of_unsupported (fun hsup => h ⟨htype, hsup⟩) clock left arpTable
  · rw [if_neg htype]

/-- Only the bytes of the ARP frame are read. -/
theorem arpFrameAt_congr {b b' : Bytes} (h : ∀ k < 28, b k = b' k) :
    arpFrameAt host b = arpFrameAt host b' := by
  have hmac : ∀ k, k + 6 ≤ 28 → loadMac b k = loadMac b' k := by
    intro k hk
    funext i
    exact h _ (by omega)
  simp only [arpFrameAt, loadHalf, loadWord, hmac 8 (by omega), hmac 18 (by omega),
    h 0 (by omega), h 1 (by omega), h 2 (by omega), h 3 (by omega), h 4 (by omega),
    h 5 (by omega), h 6 (by omega), h 7 (by omega), h 14 (by omega), h 15 (by omega),
    h 16 (by omega), h 17 (by omega), h 24 (by omega), h 25 (by omega), h 26 (by omega),
    h 27 (by omega), Nat.reduceAdd]

/-- Only the bytes of the header and of the ARP frame are read. -/
theorem startPdu_congr {p q : RawPacket}
    (h : ∀ k < arpPacketLength, q.data k = p.data k) :
    startPduEncapsulation host clock left q arpTable =
      startPduEncapsulation host clock left p arpTable := by
  have htype : (ethernetFrameAt host q.data).etherType =
      (ethernetFrameAt host p.data).etherType :=
    loadHalf_congr (h 12 (by decide)) (h 13 (by decide))
  have hframe : arpFrameAt host (ethernetFrameAt host q.data).payload =
      arpFrameAt host (ethernetFrameAt host p.data).payload :=
    arpFrameAt_congr fun k hk => h _ (show 14 + k < 42 by omega)
  simp only [startPduEncapsulation, arpReceive, htype, hframe]

/-! ### Which packets act through their own bytes -/

/-- A packet with the header changes some table. -/
theorem startPdu_changes {q : RawPacket} (h : HasArpHeader host q.data) (left : Leftover) :
    ∃ clock arpTable, startPduEncapsulation host clock left q arpTable ≠ (arpTable, []) := by
  obtain ⟨htype, hsup⟩ := (hasArpHeader_iff host q.data).mp h
  -- the sender is in the table, used at second 0, and now it is second 1
  refine ⟨1000, some fun _ =>
    ⟨(sender host (arpFrameAt host (ethernetFrameAt host q.data).payload)).1, NULL_MAC, 0⟩, ?_⟩
  have hhit : Hit 1000 (sender host (arpFrameAt host (ethernetFrameAt host q.data).payload)).1
      ⟨(sender host (arpFrameAt host (ethernetFrameAt host q.data).payload)).1, NULL_MAC, 0⟩ :=
    ⟨fun hage => hage.1 rfl, rfl⟩
  rw [startPduEncapsulation, if_pos htype]
  intro heq
  have htable := congrArg Prod.fst heq
  rcases arpReceive_cases hsup 1000 left _ with ⟨i, -, -, hafter⟩ | ⟨hnone, -⟩
  · have hentry := congrFun (Option.some.inj (hafter.symm.trans htable)) i
    rw [Function.update_self] at hentry
    have htime : clockSeconds 1000 = 0 := congrArg ArpTableEntry.entryTime hentry
    exact absurd htime (by decide)
  · exact hnone 0 hhit

/-- The packet's own bytes, with the header filled in where they end too early. -/
def completeHeader (host : Host) (p : RawPacket) : RawPacket where
  length := p.length
  data := fun k => if k < p.length.toNat then p.data k else arpHeader host k

/-- **A packet acts through its own bytes** exactly if it is long enough, or one
of its own bytes differs from the header of an ARP frame. -/
theorem actsThroughOwnBytes_iff (host : Host) (p : RawPacket) :
    ActsThroughOwnBytes host p ↔
      arpPacketLength ≤ p.length.toNat ∨
        ∃ k, 12 ≤ k ∧ k < 20 ∧ k < p.length.toNat ∧ p.data k ≠ arpHeader host k := by
  constructor
  · intro h
    by_contra hno
    push Not at hno
    obtain ⟨hshort, hown⟩ := hno
    -- stale bytes that complete the header make the short packet change a table
    have hsame : SameOwnBytes p (completeHeader host p) :=
      ⟨rfl, fun k hk => if_pos hk⟩
    have hheader : HasArpHeader host (completeHeader host p).data := by
      intro k hlow hhigh
      by_cases hk : k < p.length.toNat
      · exact (if_pos hk).trans (hown k hlow hhigh hk)
      · exact if_neg hk
    obtain ⟨clock, arpTable, hchange⟩ := startPdu_changes hheader ⟨fun _ => 0, fun _ => 0⟩
    obtain ⟨heq, hnothing⟩ := h _ hsame clock ⟨fun _ => 0, fun _ => 0⟩ arpTable
    exact hchange (heq.trans (hnothing hshort))
  · rintro (hlong | ⟨k, hlow, hhigh, hown, hne⟩) q ⟨-, hsame⟩ clock left arpTable
    · refine ⟨startPdu_congr fun k hk => hsame k (hk.trans_le hlong), fun hshort => ?_⟩
      omega
    · -- one of the packet's own bytes turns it away, whatever lies behind it
      have hp : ¬ HasArpHeader host p.data := fun h => hne (h k hlow hhigh)
      have hq : ¬ HasArpHeader host q.data := fun h =>
        hne ((hsame k hown).symm.trans (h k hlow hhigh))
      rw [startPdu_of_no_header hp, startPdu_of_no_header hq]
      exact ⟨rfl, fun _ => rfl⟩

/-- An Ethernet header with the type of ARP, and nothing behind it. -/
def bareHeader (behind : Bytes) : RawPacket where
  length := 14
  data := fun k => if k < 14 then
    [0x52, 0x54, 0, 0x12, 0x34, 0x56, 2, 0, 0, 0, 0, 1, 0x08, 0x06].getD k 0 else behind k

/-- What lies behind the bare header is taken for its ARP frame. -/
theorem bareHeader_acts_through_leftover :
    ¬ ActsThroughOwnBytes versatileHost (bareHeader (arpHeader versatileHost)) := by
  intro h
  have hresult := (h _ ⟨rfl, fun _ _ => rfl⟩ 1000 ⟨fun _ => 0, fun _ => 0⟩
    (some fun _ => ARP_NULL_ENTRY)).2 (by decide)
  have htime := congrArg (fun result => result.1.map fun t => (t 0).entryTime) hresult
  exact absurd htime (by decide +kernel)

end Network
end Ninjastorms
