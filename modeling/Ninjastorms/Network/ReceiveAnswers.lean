import Ninjastorms.Network.ReceivePath

/-!
# What the receive path answers

The frames that the host sends of its own accord are the answers to the packets
that it has processed, and an answer depends on nothing but the bytes of the
packet: not on the table, the time, or what lies in memory.  This needs packets
that are at least as long as an ARP frame, since a shorter one is read on into
what an earlier packet has left behind in the slot.

A frame is lost only if 127 others wait in front of it (`InboxPermitted`).  As
long as no more than 127 are on their way, all of them are answered.
-/

namespace Ninjastorms
namespace Network

open Libc Lib.ByteMemory Lib.Runs Lib.Simulation

/-- The bytes of a packet. -/
def Packet.data (p : Packet) : Bytes :=
  fun k => p.bytes.getD k 0

/-- The payload of the Ethernet frame that the packet is. -/
def Packet.payload (p : Packet) : Bytes :=
  fun k => p.data (sizeofEthernetFrame + k)

/-- What is sent on a packet. -/
def answer (host : Host) (p : Packet) : List Frame :=
  if netHalf p.data 12 = TYPE_ARP ∧ IsRequestFor host.ownIpv4Addr p.payload then
    [replyFrame host (messageAt p.payload)]
  else []

/-- The packet is long enough to hold an ARP frame. -/
def HoldsArpFrame (p : Packet) : Prop :=
  arpPacketLength ≤ p.length.toNat

instance : DecidablePred HoldsArpFrame := fun p =>
  inferInstanceAs (Decidable (arpPacketLength ≤ p.length.toNat))

/-- No more than 127 frames are on their way. -/
def FewOutstanding (s : NetworkStack) : Prop :=
  s.card.ring.stored.length ≤ s.receiver.processed.length + 127

instance : DecidablePred FewOutstanding := fun s =>
  inferInstanceAs (Decidable (s.card.ring.stored.length ≤ s.receiver.processed.length + 127))

section Answer

variable {host : Host}

theorem data_packet {raw : RawPacket} {k : Nat} (hk : k < raw.length.toNat) :
    raw.packet.data k = raw.data k := by
  have hlen : k < ((List.range raw.length.toNat).map raw.data).length := by simpa using hk
  show ((List.range raw.length.toNat).map raw.data).getD k 0 = raw.data k
  rw [List.getD_eq_getElem?_getD, List.getElem?_eq_getElem hlen, Option.getD_some,
    List.getElem_map, List.getElem_range]

/-- What is sent while a packet is worked on. -/
theorem workOn_sent (hknows : KnowsByteOrder host) (havail : host.available = true)
    (raw : RawPacket) (left : Leftover) (cache : Cache) (hlong : HoldsArpFrame raw.packet) :
    (workOn host raw left cache).2 = answer host raw.packet := by
  have hsame : startPduEncapsulation host cache.clock left raw cache.arpTable =
      startPduEncapsulation host cache.clock left ⟨raw.length, raw.packet.data⟩
        cache.arpTable :=
    startPdu_congr fun k hk => (data_packet (hk.trans_le hlong)).symm
  have htype : ntohs host (ethernetFrameAt host raw.packet.data).etherType =
      netHalf raw.packet.data 12 := ntohs_loadHalf hknows _ _
  show (startPduEncapsulation host cache.clock left raw cache.arpTable).2 = _
  rw [hsame, startPduEncapsulation, answer]
  simp only [htype]
  by_cases harp : netHalf raw.packet.data 12 = TYPE_ARP
  · rw [if_pos harp, arpReceive_sent hknows havail]
    exact if_congr (and_iff_right harp).symm rfl rfl
  · rw [if_neg harp, if_neg fun hboth => harp hboth.1]

end Answer

section Runs

variable {buffers : RxBuffers} {host : Host} {lengths : RxIndex → HalfWord} {mem : Mem}
  {intCause intMask ctrl : Word} {cache : Cache}

variable (buffers host lengths mem intCause intMask ctrl cache) in
/-- Each stored frame is processed at most once, in order. -/
theorem processed_stored (actions : List StackAction) :
    let final := run (stackStep host)
      (startStack buffers lengths mem intCause intMask ctrl cache) actions
    (final.receiver.processed ++ (final.stages host).inbox.pending).Sublist
      final.card.ring.stored := by
  intro final
  have hinit := stackInv_initial buffers host lengths mem intCause intMask ctrl cache
  obtain ⟨hpermitted, hrun⟩ := inbox_run hinit actions
  have hsub := processed_sublist hpermitted
  rw [← hrun, inbox_startStack] at hsub
  rw [stored_run hinit actions, processed_run hinit actions]
  exact hsub

/-- The frames sent are the answers to what was processed. -/
theorem sent_processed (hknows : KnowsByteOrder host) (havail : host.available = true)
    (actions : List StackAction)
    (hlong : ∀ p ∈ (run (stackStep host)
      (startStack buffers lengths mem intCause intMask ctrl cache) actions).card.ring.stored,
        HoldsArpFrame p) :
    (run (stackStep host) (startStack buffers lengths mem intCause intMask ctrl cache)
        actions).sent =
      (run (stackStep host) (startStack buffers lengths mem intCause intMask ctrl cache)
        actions).receiver.processed.flatMap (answer host) := by
  have hinit := stackInv_initial buffers host lengths mem intCause intMask ctrl cache
  have hsub := processed_stored buffers host lengths mem intCause intMask ctrl cache
    actions
  have hrun := congrArg Inbox.sent (inbox_run hinit actions).2
  have hprocessed := processed_run hinit actions
  have hgood : ∀ p ∈ (inboxSteps buffers host (startStack buffers lengths mem intCause intMask ctrl
      cache) actions).filterMap InboxAction.worked, HoldsArpFrame p := by
    intro p hp
    apply hlong
    refine hsub.subset (List.mem_append_left _ ?_)
    rw [hprocessed]
    exact List.mem_append_right _ hp
  rw [sent_eq (fun raw left cache hlong => workOn_sent hknows havail raw left cache hlong) hgood,
    inbox_startStack] at hrun
  rw [hprocessed]
  exact hrun

/-- Nothing is lost while no more than 127 frames are on their way. -/
theorem nothing_lost (actions : List StackAction)
    (hfew : EveryState (stackStep host) FewOutstanding
      (startStack buffers lengths mem intCause intMask ctrl cache) actions) :
    let final := run (stackStep host)
      (startStack buffers lengths mem intCause intMask ctrl cache) actions
    final.receiver.processed ++ (final.stages host).inbox.pending = final.card.ring.stored := by
  intro final
  have hinit := stackInv_initial buffers host lengths mem intCause intMask ctrl cache
  obtain ⟨hpermitted, hrun⟩ := inbox_run hinit actions
  -- what waits is not more than what is on its way
  have hshort : EveryState (stackStep host)
      (fun s => ((stackRefinement buffers host).abs s).pending.length ≤ 127)
      (startStack buffers lengths mem intCause intMask ctrl cache) actions := by
    rw [everyState_iff_reached] at hfew ⊢
    intro pre hpre
    have hlen := (processed_stored buffers host lengths mem intCause intMask ctrl cache
      pre).length_le
    have hreached := hfew pre hpre
    rw [FewOutstanding] at hreached
    rw [List.length_append] at hlen
    show ((run (stackStep host) _ pre).stages host).inbox.pending.length ≤ 127
    omega
  have heq := processed_eq hpermitted
    ((stackRefinement buffers host).everyState_trace
      (fun s a => (length_trace_le length_shows_le _ _).trans (length_stackShows_le s a))
      (stackInv_ok hinit) (everyStep_true _ actions) hshort)
  rw [← hrun, inbox_startStack] at heq
  rw [stored_run hinit actions, processed_run hinit actions]
  exact heq

end Runs

/-- **The host sends nothing but answers.**  Of the frames that arrive, all of
them long enough, each is processed at most once and in order, and the frames
sent are the answers to the processed ones. -/
theorem answers_in_order (buffers : RxBuffers) (host : Host) (hknows : KnowsByteOrder host)
    (havail : host.available = true) (lengths : RxIndex → HalfWord) (mem : Mem)
    (intCause intMask ctrl : Word) (cache : Cache) (actions : List StackAction)
    (hlong : ∀ p ∈ (run (stackStep host)
      (startStack buffers lengths mem intCause intMask ctrl cache) actions).card.ring.stored,
        HoldsArpFrame p) :
    let final := run (stackStep host)
      (startStack buffers lengths mem intCause intMask ctrl cache) actions
    final.sent = final.receiver.processed.flatMap (answer host) ∧
    final.receiver.processed.Sublist final.card.ring.stored := by
  intro final
  refine ⟨sent_processed hknows havail actions hlong, ?_⟩
  exact (List.sublist_append_left _ _).trans
    (processed_stored buffers host lengths mem intCause intMask ctrl cache actions)

/-- The machine 10.0.2.2 asks for the address 10.0.2.10. -/
def requestWire : Frame :=
  frameWire BROADCAST_MAC ![0x02, 0, 0, 0, 0, 1]
    ⟨ARP_REQUEST, ![0x02, 0, 0, 0, 0, 1], 0x0A000202, NULL_MAC, OWN_IPV4_ADDR⟩

/-- The card stores the request, the handler copies it, the task works on it. -/
def oneRequest : List StackAction :=
  [.card (.store requestWire 0), .card .interrupt] ++ List.replicate 75 (.card .handler) ++
    List.replicate 5 (.task ⟨fun _ => 0, fun _ => 0⟩)

theorem oneRequest_answers :
    let final := run (stackStep versatileHost)
      (startStack freshHeapBuffers (fun _ => 0) (fun _ => 0) 0 0 0 (initialCache 0)) oneRequest
    final.sent = final.receiver.processed.flatMap (answer versatileHost) ∧
    final.receiver.processed.Sublist final.card.ring.stored :=
  answers_in_order freshHeapBuffers versatileHost rfl rfl (fun _ => 0) (fun _ => 0) 0 0 0
    (initialCache 0) oneRequest (by decide +kernel)

end Network
end Ninjastorms
