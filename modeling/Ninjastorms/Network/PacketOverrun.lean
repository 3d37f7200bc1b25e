import Ninjastorms.Network.RxRing

/-!
# Received lengths

The length of a received frame goes from the descriptor through `receive_packet`
and `insert_packet` to `memcpy`, and nobody compares it with the size of a slot.
`StaysInSlot` says that a call changes one slot of the queue only; what it writes
at most, for any length, is `insertPacket_outside`.  A frame that fits is in the
slot as it was in the ring (`packet_receiveInsert`).
-/

namespace Ninjastorms
namespace Network

open Libc Lib.CircularBuffer

/-- The call of `insert_packet` in `receive_packet`. -/
def receiveInsert (host : Host) (ring : RxRing) (q : PacketQueue) : PacketQueue :=
  insertPacket host (fun k => ring.mem (ring.buf ring.rxCur + BitVec.ofNat 32 k))
    ((ring.rxDescs ring.rxCur).length.setWidth 32) q

/-- The call changes the slot at the end of the queue and that index, nothing else,
and the length that it stores is one that fits into a slot. -/
structure StaysInSlot (host : Host) (q q' : PacketQueue) : Prop where
  otherBytes : ∀ k, k < slotOffset q.recvQueueEnd ∨
    slotOffset q.recvQueueEnd + sizeofRawPacket ≤ k → q'.recvPacketQueue k = q.recvPacketQueue k
  otherSlots : ∀ i, i ≠ q.recvQueueEnd → (q'.slot host i).length = (q.slot host i).length ∧
    ∀ k < MAX_PACKET_SIZE, (q'.slot host i).data k = (q.slot host i).data k
  start : q'.recvQueueStart = q.recvQueueStart
  stored : q'.recvQueueEnd ≠ q.recvQueueEnd →
    (q'.slot host q.recvQueueEnd).length.toNat ≤ MAX_PACKET_SIZE

section Insert

variable {host : Host} {data : Bytes} {len : Word} {q q' : PacketQueue}

/-- Slots whose bytes do not change are the same. -/
theorem otherSlots_of_otherBytes
    (h : ∀ k, k < slotOffset q.recvQueueEnd ∨ slotOffset q.recvQueueEnd + sizeofRawPacket ≤ k →
      q'.recvPacketQueue k = q.recvPacketQueue k)
    {i : Fin MAX_PACKET_COUNT} (hi : i ≠ q.recvQueueEnd) :
    (q'.slot host i).length = (q.slot host i).length ∧
      ∀ k < MAX_PACKET_SIZE, (q'.slot host i).data k = (q.slot host i).data k := by
  have hsize : sizeofRawPacket = 2 + MAX_PACKET_SIZE := rfl
  refine ⟨loadHalf_congr (h _ ?_) (h _ ?_), fun k hk => h _ ?_⟩
  · exact slot_apart hi (k := 0) (by omega)
  · exact slot_apart hi (k := 1) (by omega)
  · rw [Nat.add_assoc]
    exact slot_apart hi (by omega)

/-- A packet that fits stays in its slot. -/
theorem staysInSlot_of_fits (hlen : len.toNat ≤ MAX_PACKET_SIZE) :
    StaysInSlot host q (insertPacket host data len q) := by
  have hsize : sizeofRawPacket = 2 + MAX_PACKET_SIZE := rfl
  have hbytes : ∀ k, k < slotOffset q.recvQueueEnd ∨
      slotOffset q.recvQueueEnd + sizeofRawPacket ≤ k →
      (insertPacket host data len q).recvPacketQueue k = q.recvPacketQueue k :=
    fun k hk => insertPacket_outside (by omega)
  refine ⟨hbytes, fun i hi => otherSlots_of_otherBytes hbytes hi, ?_, fun hmoved => ?_⟩
  · rcases insertPacket_cases host data len q with ⟨-, heq⟩ | ⟨-, heq⟩
    · rw [heq]
    · rw [heq]
  · have hroom : next q.recvQueueEnd ≠ q.recvQueueStart := by
      intro hfull
      rcases insertPacket_cases host data len q with ⟨-, heq⟩ | ⟨hroom, -⟩
      · exact hmoved (by rw [heq])
      · exact hroom hfull
    rw [length_insertPacket hroom, BitVec.toNat_setWidth]
    exact (Nat.mod_le _ _).trans hlen

/-- A longer one is stored with a length that no slot has room for. -/
theorem not_staysInSlot (hroom : next q.recvQueueEnd ≠ q.recvQueueStart)
    (hlong : MAX_PACKET_SIZE < (len.setWidth 16).toNat) :
    ¬ StaysInSlot host q (insertPacket host data len q) := by
  intro h
  have hmoved : (insertPacket host data len q).recvQueueEnd ≠ q.recvQueueEnd := by
    rcases insertPacket_cases host data len q with ⟨hfull, -⟩ | ⟨-, heq⟩
    · exact absurd hfull hroom
    · rw [heq]
      exact next_ne_self (by decide) _
  have hstored := h.stored hmoved
  rw [length_insertPacket hroom] at hstored
  omega

/-- A full queue throws every packet away. -/
theorem staysInSlot_of_full (hfull : next q.recvQueueEnd = q.recvQueueStart) :
    StaysInSlot host q (insertPacket host data len q) := by
  have heq : insertPacket host data len q = q := by
    rcases insertPacket_cases host data len q with ⟨-, heq⟩ | ⟨hroom, -⟩
    · exact heq
    · exact absurd hfull hroom
  rw [heq]
  exact ⟨fun _ _ => rfl, fun _ _ => ⟨rfl, fun _ _ => rfl⟩, rfl, fun hmoved => absurd rfl hmoved⟩

end Insert

section Receive

variable {host : Host} {ring : RxRing} {q : PacketQueue}

/-- The length of the descriptor is handed over as it is. -/
theorem toNat_receivedLen (desc : RxDesc) :
    (desc.length.setWidth 32 : Word).toNat = desc.length.toNat := by
  rw [BitVec.toNat_setWidth]
  exact Nat.mod_eq_of_lt (lt_trans desc.length.isLt (by decide))

/-- A frame that fits arrives in the slot as the card has stored it. -/
theorem packet_receiveInsert (hroom : next q.recvQueueEnd ≠ q.recvQueueStart)
    (hfits : (ring.rxDescs ring.rxCur).length.toNat ≤ MAX_PACKET_SIZE) :
    ((receiveInsert host ring q).slot host q.recvQueueEnd).packet = ring.frame ring.rxCur := by
  have hlen := toNat_receivedLen (ring.rxDescs ring.rxCur)
  have hback : ((ring.rxDescs ring.rxCur).length.setWidth 32).setWidth 16 =
      (ring.rxDescs ring.rxCur).length := by
    rw [BitVec.setWidth_setWidth_of_le _ (by omega), BitVec.setWidth_eq]
  rw [receiveInsert, packet_insertPacket (le_of_eq_of_le hlen hfits) hroom, packetOf, hback, hlen]
  rfl

end Receive

/-- **Received lengths.**  Whatever the card has written into the descriptor and
wherever the ring stands, a frame stays in its slot exactly if there is none for
it, or the length is one that fits. -/
theorem receiveInsert_stays_iff (host : Host) (ring : RxRing) (q : PacketQueue) :
    StaysInSlot host q (receiveInsert host ring q) ↔
      next q.recvQueueEnd = q.recvQueueStart ∨
        (ring.rxDescs ring.rxCur).length.toNat ≤ MAX_PACKET_SIZE := by
  have hlen := toNat_receivedLen (ring.rxDescs ring.rxCur)
  constructor
  · intro h
    by_contra hno
    push Not at hno
    obtain ⟨hroom, hlong⟩ := hno
    refine not_staysInSlot hroom ?_ h
    rw [BitVec.toNat_setWidth, hlen, Nat.mod_eq_of_lt (ring.rxDescs ring.rxCur).length.isLt]
    exact hlong
  · rintro (hfull | hfits)
    · exact staysInSlot_of_full hfull
    · exact staysInSlot_of_fits (by rw [hlen]; exact hfits)

/-- A frame of 8193 bytes in an empty queue. -/
theorem frame_8193_not_in_slot :
    ¬ StaysInSlot versatileHost initialReceiver.queue (receiveInsert versatileHost
      (initReceiveDescriptors freshHeapBuffers (fun _ => 8193) fun _ => 0)
      initialReceiver.queue) :=
  not_staysInSlot (by decide) (by decide)

end Network
end Ninjastorms
