import Ninjastorms.Network.ArpWire

/-!
# Ethernet frames

`ethernet_send` for a payload of any length.  `ethernetWire` is what has to be
transmitted: the two addresses, the type, the payload, and zeros up to the
least length of a frame.

* `toNat_paddedLen` is the length computation, `fillFrame_eq` the order of the
  copies and the filling;
* `slice_fillFrame_wire` says that the block holds these bytes, whatever lies in
  memory behind the payload;
* `ethernet_framing` adds what is announced to the card, and what a receiver of
  either byte order reads from the frame.
-/

namespace Ninjastorms
namespace Network

open Libc Lib.ByteMemory

/-- An Ethernet frame: the addresses as they are transmitted, the type, and the
payload with its padding. -/
def ethernetWire (destMac srcMac : MacAddress) (ethType : HalfWord) (payload : List Byte) : Frame :=
  macWire destMac ++ macWire srcMac ++ halfWire ethType ++ payload ++
    List.replicate (46 - payload.length) 0

/-- The length that `ethernet_send` announces to the card. -/
def announcedLen (lenPayload : Word) : HalfWord :=
  (BitVec.ofNat 32 sizeofEthernetFrame + paddedLen lenPayload).setWidth 16

/-- Two machines hold the same hardware address, each in its own byte order. -/
def SameMac (host : Host) (mac : MacAddress) (host' : Host) (mac' : MacAddress) : Prop :=
  htonMac host mac = htonMac host' mac'

/-- In the same byte order the same address is the same array. -/
theorem SameMac.eq {host host' : Host} {mac mac' : MacAddress} (h : SameMac host mac host' mac')
    (horder : isBigEndian host = isBigEndian host') : mac = mac' := by
  have hback := congrArg (ntohMac host) h
  have hsame : ntohMac host (htonMac host' mac') = mac' := by
    have hboth : ntohMac host = ntohMac host' := by
      funext m
      rw [ntohMac, ntohMac, horder]
    rw [hboth, ntohMac_htonMac]
  rwa [ntohMac_htonMac, hsame] at hback

/-- What a machine reads from a frame in its memory is what has been sent; for a machine
of the sender's byte order it is the same down to the arrays. -/
structure ReadsBack (receiver : Host) (b : Bytes) (host : Host) (destMac : MacAddress)
    (ethType : HalfWord) (payload : Bytes) (lenPayload : Word) : Prop where
  destination : SameMac receiver (ntohMac receiver (ethernetFrameAt receiver b).destMac) host destMac
  source : SameMac receiver (ntohMac receiver (ethernetFrameAt receiver b).srcMac) host host.mac
  etherType : ntohs receiver (ethernetFrameAt receiver b).etherType = ethType
  payload : ∀ k < lenPayload.toNat, (ethernetFrameAt receiver b).payload k = payload k
  sameOrder : isBigEndian receiver = isBigEndian host →
    ntohMac receiver (ethernetFrameAt receiver b).destMac = destMac ∧
    ntohMac receiver (ethernetFrameAt receiver b).srcMac = host.mac

/-- The buffer that is handed to the card, the length that is announced, what is
transmitted, and what is read from it. -/
structure Framed (host : Host) (destMac : MacAddress) (ethType : HalfWord) (payload : Bytes)
    (lenPayload : Word) (block : Bytes) : Prop where
  content : slice (fillFrame host destMac ethType payload lenPayload block) 0
      (14 + max lenPayload.toNat 46) =
    ethernetWire (htonMac host destMac) (htonMac host host.mac) ethType
      (slice payload 0 lenPayload.toNat)
  announced : (announcedLen lenPayload).toNat = 14 + max lenPayload.toNat 46
  sent : host.available = true → ethernetSend host destMac ethType payload lenPayload block =
    [ethernetWire (htonMac host destMac) (htonMac host host.mac) ethType
      (slice payload 0 lenPayload.toNat)]
  received : ∀ receiver, KnowsByteOrder receiver → ∀ b,
    slice b 0 (14 + max lenPayload.toNat 46) =
      slice (fillFrame host destMac ethType payload lenPayload block) 0
        (14 + max lenPayload.toNat 46) →
    ReadsBack receiver b host destMac ethType payload lenPayload

/-! ### Lengths -/

theorem toNat_lenPadding (lenPayload : Word) :
    (lenPadding lenPayload).toNat = 46 - lenPayload.toNat := by
  have hmin : MINIMUM_PAYLOAD_LENGTH.toNat = 46 := rfl
  unfold lenPadding
  by_cases hshort : lenPayload < MINIMUM_PAYLOAD_LENGTH
  · have hlt := BitVec.lt_def.mp hshort
    rw [if_pos hshort, BitVec.toNat_setWidth, BitVec.toNat_sub_of_le (BitVec.le_of_lt hshort)]
    omega
  · have hle := BitVec.le_def.mp (BitVec.not_lt.mp hshort)
    rw [if_neg hshort]
    show 0 = 46 - lenPayload.toNat
    omega

/-- The sum does not wrap around: only a short payload is padded. -/
theorem toNat_paddedLen (lenPayload : Word) :
    (paddedLen lenPayload).toNat = max lenPayload.toNat 46 := by
  have hlt := lenPayload.isLt
  have hpad := toNat_lenPadding lenPayload
  rw [paddedLen, BitVec.toNat_add, BitVec.toNat_setWidth, hpad]
  omega

theorem toNat_announcedLen (lenPayload : Word) :
    (announcedLen lenPayload).toNat = (14 + max lenPayload.toNat 46) % 2 ^ 16 := by
  have hsize : (BitVec.ofNat 32 sizeofEthernetFrame).toNat = 14 := rfl
  rw [announcedLen, BitVec.toNat_setWidth, BitVec.toNat_add, hsize, toNat_paddedLen]
  omega

/-! ### The block -/

section Block

variable {host : Host} {destMac : MacAddress} {ethType : HalfWord} {payload block : Bytes}
  {lenPayload : Word}

/-- The writes to the block, in their order; without padding the last one is empty. -/
theorem fillFrame_eq (host : Host) (destMac : MacAddress) (ethType : HalfWord) (payload : Bytes)
    (lenPayload : Word) (block : Bytes) :
    fillFrame host destMac ethType payload lenPayload block =
      memcpy (memcpy (memcpy (memcpy (memcpy block
        0 (macBytes (htonMac host destMac)) 6)
        6 (macBytes (htonMac host host.mac)) 6)
        12 (halfBytes host (htons host ethType)) 2)
        14 payload (max lenPayload.toNat 46))
        (14 + lenPayload.toNat) (fun _ => 0) (46 - lenPayload.toNat) := by
  unfold fillFrame
  simp only [toNat_paddedLen, memset_eq_memcpy, storeMac, storeHalf, sizeofEthernetFrame,
    toNat_lenPadding]
  split
  · rfl
  · rename_i hnone
    have hzero : (lenPadding lenPayload).toNat = 0 := congrArg BitVec.toNat (not_not.mp hnone)
    rw [toNat_lenPadding] at hzero
    rw [hzero]
    rfl

/-- **The block holds the frame**, whatever lies behind the payload. -/
theorem slice_fillFrame_wire (hknows : KnowsByteOrder host) :
    slice (fillFrame host destMac ethType payload lenPayload block) 0
        (14 + max lenPayload.toNat 46) =
      ethernetWire (htonMac host destMac) (htonMac host host.mac) ethType
        (slice payload 0 lenPayload.toNat) := by
  have hsplit : 14 + max lenPayload.toNat 46 =
      6 + 6 + 2 + lenPayload.toNat + (46 - lenPayload.toNat) := by omega
  rw [fillFrame_eq, hsplit, slice_add, slice_add, slice_add, slice_add, ethernetWire, length_slice]
  simp (disch := omega) only [slice_memcpy, slice_memcpy_of_disjoint, Nat.sub_self, Nat.zero_add,
    slice_macBytes, slice_htons hknows, slice_const, Nat.reduceAdd]

/-- A frame has one reading, in either byte order. -/
theorem readsBack_of_wire {receiver : Host} (hknows : KnowsByteOrder receiver) {b : Bytes}
    (h : slice b 0 (14 + max lenPayload.toNat 46) =
      ethernetWire (htonMac host destMac) (htonMac host host.mac) ethType
        (slice payload 0 lenPayload.toNat)) :
    ReadsBack receiver b host destMac ethType payload lenPayload := by
  have hsplit : 14 + max lenPayload.toNat 46 =
      6 + 6 + 2 + lenPayload.toNat + (46 - lenPayload.toNat) := by omega
  rw [hsplit, slice_add, slice_add, slice_add, slice_add, ethernetWire] at h
  iterate 4 rw [List.append_eq_append_iff_of_size_eq_right (by simp)] at h
  obtain ⟨⟨⟨⟨hdest, hsrc⟩, htype⟩, hpayload⟩, -⟩ := h
  have hdestMac : SameMac receiver (ntohMac receiver (ethernetFrameAt receiver b).destMac)
      host destMac := by
    rw [SameMac, htonMac_ntohMac]
    exact (slice_eq_macWire b 0 _).mp hdest
  have hsrcMac : SameMac receiver (ntohMac receiver (ethernetFrameAt receiver b).srcMac)
      host host.mac := by
    rw [SameMac, htonMac_ntohMac]
    exact (slice_eq_macWire b 6 _).mp hsrc
  refine ⟨hdestMac, hsrcMac, ?_, ?_, fun horder => ⟨hdestMac.eq horder, hsrcMac.eq horder⟩⟩
  · exact (ntohs_loadHalf hknows b 12).trans ((slice_eq_halfWire b 12 ethType).mp htype)
  · intro k hk
    have hbyte := apply_of_slice_eq hpayload hk
    rw [Nat.zero_add k] at hbyte
    exact hbyte

end Block

/-- **Framing.**  For every payload up to the length of a frame that the card can be
told, the frame is built and announced as it should be, and read back by every
receiver. -/
theorem ethernet_framing (host : Host) (hknows : KnowsByteOrder host) (destMac : MacAddress)
    (ethType : HalfWord) (payload : Bytes) (lenPayload : Word)
    (hlen : 14 + max lenPayload.toNat 46 < 65536) (block : Bytes) :
    Framed host destMac ethType payload lenPayload block where
  content := slice_fillFrame_wire hknows
  announced := by
    rw [toNat_announcedLen]
    exact Nat.mod_eq_of_lt hlen
  sent := by
    intro havail
    have hannounced : ((BitVec.ofNat 32 sizeofEthernetFrame + paddedLen lenPayload).setWidth
        16).toNat = 14 + max lenPayload.toNat 46 :=
      (toNat_announcedLen lenPayload).trans (Nat.mod_eq_of_lt hlen)
    have hwire : slice (fillFrame host destMac ethType payload lenPayload block) 0
        (14 + max lenPayload.toNat 46) = _ := slice_fillFrame_wire hknows
    rw [← hwire]
    simp only [ethernetSend, e1000SendPacket, if_pos havail, hannounced, slice, Nat.zero_add]
  received := by
    intro receiver hreceiver b hframe
    exact readsBack_of_wire hreceiver (hframe.trans (slice_fillFrame_wire hknows))

/-- The shortest payload that is not padded, and bytes behind it. -/
theorem ethernet_framing_46 :
    Framed versatileHost BROADCAST_MAC TYPE_IPv4 (fun k => BitVec.ofNat 8 k) 46 fun _ => 0xff :=
  ethernet_framing versatileHost rfl BROADCAST_MAC TYPE_IPv4 _ 46 (by decide) _

end Network
end Ninjastorms
