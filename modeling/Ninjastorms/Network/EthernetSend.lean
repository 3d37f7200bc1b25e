import Ninjastorms.Libc.Malloc
import Ninjastorms.Network.EthernetFraming

/-!
# `ethernet_send` in memory

The whole of `ethernet_send`: the block comes from `malloc`, the frame is built
through the pointer that it has returned, `e1000_send_packet` hands the pointer
and the length to the card, and `free` takes the block back.  Nothing here
assumes that `malloc` has returned a block.

* `image_fillFrameAt` and `transmitted_ethernetSendAt` connect this with
  `fillFrame` and `ethernetSend`, which see the bytes of the block only;
* `fillFrameAt_outside` says which bytes of the memory are written;
* `lengthsExact_iff` follows the length through its types.
-/

namespace Ninjastorms
namespace Network

open Libc Lib.ByteMemory

/-! ### The transmit ring -/

/-- `E1000_NUM_TX_DESC`. -/
abbrev E1000_NUM_TX_DESC : Nat := 8

/-- An index into `tx_descs`. -/
abbrev TxIndex := Fin E1000_NUM_TX_DESC

/-- `CMD_EOP`. -/
def CMD_EOP : Byte := 1 <<< 0

/-- `CMD_IFCS`. -/
def CMD_IFCS : Byte := 1 <<< 1

/-- `CMD_RS`. -/
def CMD_RS : Byte := 1 <<< 3

/-- `TSTA_DD`. -/
def TSTA_DD : Byte := 1 <<< 0

/-- `e1000_tx_desc_t`, the fields that the driver writes. -/
structure TxDesc where
  addr : DoubleWord
  length : HalfWord
  cmd : Byte
  status : Byte

/-- The transmit half of the card; `transmitted` lists what it has sent. -/
structure Transmitter where
  txDescs : TxIndex → TxDesc
  txCur : TxIndex
  transmitted : List Frame

/-- The card before the first frame. -/
def idleTransmitter : Transmitter where
  txDescs := fun _ => ⟨0, 0, 0, 0⟩
  txCur := 0
  transmitted := []

/-- The card sends the frame that a descriptor names, and sets its status. -/
def transmit (mem : Mem) (i : TxIndex) (nic : Transmitter) : Transmitter :=
  let desc := nic.txDescs i
  { nic with
    txDescs := Function.update nic.txDescs i { desc with status := TSTA_DD }
    transmitted := nic.transmitted ++
      [(List.range desc.length.toNat).map fun k => mem (desc.addr.setWidth 32 + BitVec.ofNat 32 k)] }

/-- `e1000_send_packet`: its result, and the ring behind it.  The driver publishes
`tx_cur` and waits until the card has set the status. -/
def e1000SendPacketAt (host : Host) (mem : Mem) (pData : Word) (pLen : HalfWord)
    (nic : Transmitter) : Word × Transmitter :=
  if !host.available then (-1, nic)
  else
    let curr : TxDesc := ⟨pData.setWidth 64, pLen, CMD_EOP ||| CMD_IFCS ||| CMD_RS, 0⟩
    (0, transmit mem nic.txCur
      { nic with
        txDescs := Function.update nic.txDescs nic.txCur curr
        txCur := nic.txCur + 1 })

/-! ### The frame -/

/-- The arguments of `ethernet_send`. -/
structure EthernetCall where
  destMac : MacAddress
  ethType : HalfWord
  payload : Word
  lenPayload : Word

/-- What `ethernet_send` asks `malloc` for. -/
def requestedSize (lenPayload : Word) : Word :=
  BitVec.ofNat 32 sizeofEthernetFrame + paddedLen lenPayload

/-- `memset`: the loop compares pointers. -/
def memsetAt (mem : Mem) (s : Word) (c : Byte) (n : Word) : Mem :=
  writeBytes mem s (if s ≤ s + n then n.toNat else 0) fun _ => c

/-- The memory once the frame is built. -/
def fillFrameAt (host : Host) (call : EthernetCall) (ethFrame : Word) (mem : Mem) : Mem :=
  let mem := writeBytes mem ethFrame 6 (macBytes (htonMac host call.destMac))
  let mem := writeBytes mem (ethFrame + 6) 6 (macBytes (htonMac host host.mac))
  let mem := writeBytes mem (ethFrame + 12) 2 (halfBytes host (htons host call.ethType))
  let mem := copyBytes mem (ethFrame + 14) call.payload (paddedLen call.lenPayload).toNat
  if lenPadding call.lenPayload ≠ 0 then
    memsetAt mem (ethFrame + 14 + call.lenPayload) 0 ((lenPadding call.lenPayload).setWidth 32)
  else
    mem

/-- The memory with the heap in it, and the card. -/
structure Machine where
  heap : Heap
  nic : Transmitter

/-- `ethernet_send`; `none` when `malloc` does not return. -/
def ethernetSendAt (head : ListHead) (host : Host) (call : EthernetCall) (m : Machine) :
    Option Machine :=
  match malloc head (requestedSize call.lenPayload) m.heap with
  | none => none
  | some (ethFrame, heap) =>
      let mem := fillFrameAt host call ethFrame heap.mem
      let (_, nic) := e1000SendPacketAt host mem ethFrame
        ((requestedSize call.lenPayload).setWidth 16) m.nic
      some { heap := free head ethFrame { heap with mem := mem }, nic := nic }

/-! ### The bytes of the block -/

/-- The first `N` bytes from `a` on are those of `b`. -/
def Image (mem : Mem) (a : Word) (N : Nat) (b : Bytes) : Prop :=
  ∀ k < N, mem (a + BitVec.ofNat 32 k) = b k

/-- The bytes from an address on. -/
def bytesFrom (mem : Mem) (a : Word) : Bytes :=
  fun k => mem (a + BitVec.ofNat 32 k)

section Image

variable {mem : Mem} {a : Word} {N : Nat} {b : Bytes}

theorem image_bytesFrom (mem : Mem) (a : Word) (N : Nat) : Image mem a N (bytesFrom mem a) :=
  fun _ _ => rfl

/-- A write to the block is a copy into its bytes. -/
theorem Image.write (h : Image mem a N b) {off n : Nat} (f : Nat → Byte) (hoff : off + n ≤ 2 ^ 32)
    (hN : N ≤ 2 ^ 32) :
    Image (writeBytes mem (a + BitVec.ofNat 32 off) n f) a N (memcpy b off f n) := by
  intro k hk
  rw [writeBytes_offset mem a f hoff (by omega), memcpy_apply, h k hk]

/-- Writes to a block leave the rest of the memory alone. -/
theorem writeBytes_outside_block {x : Word} {off n : Nat} (f : Nat → Byte) (hoff : off + n ≤ N)
    (hN : N ≤ 2 ^ 32) (hx : ¬ offset a x < N) :
    writeBytes mem (a + BitVec.ofNat 32 off) n f x = mem x :=
  writeBytes_outside fun h => hx
    (lt_of_lt_of_le ((offset_add_lt_iff a x (hoff.trans hN)).mp h).2 hoff)

theorem Image.congr {b' : Bytes} (h : Image mem a N b) (hb : ∀ k < N, b k = b' k) :
    Image mem a N b' :=
  fun k hk => (h k hk).trans (hb k hk)

end Image

section FillFrame

variable {host : Host} {call : EthernetCall} {ethFrame : Word} {mem : Mem}

theorem payload_address (ethFrame lenPayload : Word) :
    ethFrame + 14 + lenPayload = ethFrame + BitVec.ofNat 32 (14 + lenPayload.toNat) := by
  rw [BitVec.ofNat_add, BitVec.ofNat_toNat, BitVec.setWidth_eq, ← BitVec.add_assoc]
  rfl

/-- The padding, as a write to the block. -/
theorem memsetAt_padding (hfit : ethFrame.toNat + (14 + max call.lenPayload.toNat 46) < 2 ^ 32) :
    memsetAt mem (ethFrame + 14 + call.lenPayload) 0 ((lenPadding call.lenPayload).setWidth 32) =
      writeBytes mem (ethFrame + BitVec.ofNat 32 (14 + call.lenPayload.toNat))
        (46 - call.lenPayload.toNat) fun _ => 0 := by
  have hpad : ((lenPadding call.lenPayload).setWidth 32).toNat = 46 - call.lenPayload.toNat := by
    rw [BitVec.toNat_setWidth, toNat_lenPadding]
    omega
  have hstart : (ethFrame + BitVec.ofNat 32 (14 + call.lenPayload.toNat)).toNat =
      ethFrame.toNat + (14 + call.lenPayload.toNat) := by
    rw [BitVec.toNat_add, BitVec.toNat_ofNat]
    omega
  have hforward : ethFrame + BitVec.ofNat 32 (14 + call.lenPayload.toNat) ≤
      ethFrame + BitVec.ofNat 32 (14 + call.lenPayload.toNat) +
        (lenPadding call.lenPayload).setWidth 32 := by
    rw [BitVec.le_def, BitVec.toNat_add _ ((lenPadding call.lenPayload).setWidth 32), hpad, hstart]
    omega
  rw [memsetAt, payload_address, if_pos hforward, hpad]

/-- The memory once the header is written. -/
def headerAt (host : Host) (call : EthernetCall) (ethFrame : Word) (mem : Mem) : Mem :=
  writeBytes (writeBytes (writeBytes mem
    (ethFrame + BitVec.ofNat 32 0) 6 (macBytes (htonMac host call.destMac)))
    (ethFrame + BitVec.ofNat 32 6) 6 (macBytes (htonMac host host.mac)))
    (ethFrame + BitVec.ofNat 32 12) 2 (halfBytes host (htons host call.ethType))

theorem headerAt_outside {x : Word} {N : Nat} (hlen : 14 ≤ N) (hN : N ≤ 2 ^ 32)
    (hx : ¬ offset ethFrame x < N) : headerAt host call ethFrame mem x = mem x := by
  rw [headerAt, writeBytes_outside_block _ (by omega) hN hx,
    writeBytes_outside_block _ (by omega) hN hx, writeBytes_outside_block _ (by omega) hN hx]

theorem image_headerAt {N : Nat} (hN : N ≤ 2 ^ 32) :
    Image (headerAt host call ethFrame mem) ethFrame N
      (memcpy (memcpy (memcpy (bytesFrom mem ethFrame)
        0 (macBytes (htonMac host call.destMac)) 6)
        6 (macBytes (htonMac host host.mac)) 6)
        12 (halfBytes host (htons host call.ethType)) 2) :=
  (((image_bytesFrom mem ethFrame N).write _ (by omega) hN).write _ (by omega) hN).write _
    (by omega) hN

theorem fillFrameAt_eq (host : Host) (call : EthernetCall) (ethFrame : Word) (mem : Mem) :
    fillFrameAt host call ethFrame mem =
      let mem := copyBytes (headerAt host call ethFrame mem) (ethFrame + BitVec.ofNat 32 14)
        call.payload (max call.lenPayload.toNat 46)
      if lenPadding call.lenPayload ≠ 0 then
        memsetAt mem (ethFrame + 14 + call.lenPayload) 0 ((lenPadding call.lenPayload).setWidth 32)
      else mem := by
  have hzero : ethFrame + BitVec.ofNat 32 0 = ethFrame := BitVec.add_zero _
  rw [fillFrameAt, headerAt, hzero, toNat_paddedLen]
  rfl

/-- **The frame in memory** is the one that `fillFrame` builds, if the block and the
payload do not overlap. -/
theorem image_fillFrameAt
    (hfit : ethFrame.toNat + (14 + max call.lenPayload.toNat 46) < 2 ^ 32)
    (hsep : Separate ethFrame (14 + max call.lenPayload.toNat 46)
      call.payload (max call.lenPayload.toNat 46)) :
    Image (fillFrameAt host call ethFrame mem) ethFrame (14 + max call.lenPayload.toNat 46)
      (fillFrame host call.destMac call.ethType (bytesFrom mem call.payload) call.lenPayload
        (bytesFrom mem ethFrame)) := by
  have hlen : 14 + max call.lenPayload.toNat 46 ≤ 2 ^ 32 := by omega
  -- the header does not touch the payload
  have hpayload : ∀ k < max call.lenPayload.toNat 46,
      headerAt host call ethFrame mem (call.payload + BitVec.ofNat 32 k) =
        bytesFrom mem call.payload k := by
    intro k hk
    refine headerAt_outside (by omega) hlen fun h => hsep _ ⟨h, ?_⟩
    rw [offset_add_ofNat _ (by omega)]
    exact hk
  have hbehind : Separate (ethFrame + BitVec.ofNat 32 14) (max call.lenPayload.toNat 46)
      call.payload (max call.lenPayload.toNat 46) := hsep.part (by omega) (by omega)
  have hcopy := copyBytes_eq_writeBytes (m := headerAt host call ethFrame mem) (by omega) hbehind
  have hbody : Image (copyBytes (headerAt host call ethFrame mem) (ethFrame + BitVec.ofNat 32 14)
      call.payload (max call.lenPayload.toNat 46)) ethFrame (14 + max call.lenPayload.toNat 46)
      (memcpy (memcpy (memcpy (memcpy (bytesFrom mem ethFrame)
        0 (macBytes (htonMac host call.destMac)) 6)
        6 (macBytes (htonMac host host.mac)) 6)
        12 (halfBytes host (htons host call.ethType)) 2)
        14 (bytesFrom mem call.payload) (max call.lenPayload.toNat 46)) := by
    rw [hcopy, ← memcpy_congr hpayload]
    exact (image_headerAt hlen).write _ (by omega) hlen
  rw [fillFrameAt_eq, fillFrame_eq]
  simp only
  split
  · rw [memsetAt_padding hfit]
    exact hbody.write _ (by omega) hlen
  · rename_i hnone
    have hzero : (lenPadding call.lenPayload).toNat = 0 := congrArg BitVec.toNat (not_not.mp hnone)
    rw [toNat_lenPadding] at hzero
    rw [hzero]
    exact hbody

/-- Only the bytes of the frame are written. -/
theorem fillFrameAt_outside {x : Word} (hlen : 14 + max call.lenPayload.toNat 46 ≤ 2 ^ 32)
    (hx : ¬ offset ethFrame x < 14 + max call.lenPayload.toNat 46) :
    fillFrameAt host call ethFrame mem x = mem x := by
  have hcopy : ¬ offset (ethFrame + BitVec.ofNat 32 14) x < max call.lenPayload.toNat 46 :=
    fun h => hx ((offset_add_lt_iff ethFrame x hlen).mp h).2
  have hbody : copyBytes (headerAt host call ethFrame mem) (ethFrame + BitVec.ofNat 32 14)
      call.payload (max call.lenPayload.toNat 46) x = mem x := by
    rw [copyBytes_outside (by omega) hcopy, headerAt_outside (by omega) hlen hx]
  rw [fillFrameAt_eq]
  simp only
  split
  · have hpad : ((lenPadding call.lenPayload).setWidth 32).toNat = 46 - call.lenPayload.toNat := by
      rw [BitVec.toNat_setWidth, toNat_lenPadding]
      omega
    rw [memsetAt, payload_address, hpad, writeBytes_outside_block _ ?_ hlen hx, hbody]
    split <;> omega
  · exact hbody

end FillFrame

/-! ### One call -/

section Send

variable {head : ListHead} {host : Host} {call : EthernetCall} {m : Machine}

theorem toNat_requestedSize_setWidth (lenPayload : Word) :
    ((requestedSize lenPayload).setWidth 16).toNat = (14 + max lenPayload.toNat 46) % 2 ^ 16 :=
  toNat_announcedLen lenPayload

/-- With a card, the frame is sent, and the descriptor is filled in. -/
theorem e1000SendPacketAt_of_available (havail : host.available = true) (mem : Mem) (pData : Word)
    (pLen : HalfWord) (nic : Transmitter) :
    (e1000SendPacketAt host mem pData pLen nic).2.transmitted =
        nic.transmitted ++ [(List.range pLen.toNat).map (bytesFrom mem pData)] ∧
      ((e1000SendPacketAt host mem pData pLen nic).2.txDescs nic.txCur).length = pLen := by
  have haddr : (pData.setWidth 64).setWidth 32 = pData := by
    rw [BitVec.setWidth_setWidth_of_le _ (by omega), BitVec.setWidth_eq]
  simp only [e1000SendPacketAt, havail, Bool.not_true, Bool.false_eq_true, if_false, transmit,
    Function.update_self, haddr, and_true]
  rfl

theorem e1000SendPacketAt_of_not_available (havail : host.available = false) (mem : Mem)
    (pData : Word) (pLen : HalfWord) (nic : Transmitter) :
    (e1000SendPacketAt host mem pData pLen nic).2 = nic := by
  simp only [e1000SendPacketAt, havail, Bool.not_false, if_true]

/-- `ethernet_send`, once `malloc` has returned. -/
theorem ethernetSendAt_of_malloc {ethFrame : Word} {heap : Heap}
    (hmalloc : malloc head (requestedSize call.lenPayload) m.heap = some (ethFrame, heap)) :
    ethernetSendAt head host call m = some
      { heap := free head ethFrame { heap with mem := fillFrameAt host call ethFrame heap.mem }
        nic := (e1000SendPacketAt host (fillFrameAt host call ethFrame heap.mem) ethFrame
          ((requestedSize call.lenPayload).setWidth 16) m.nic).2 } := by
  rw [ethernetSendAt, hmalloc]

/-- **What is sent** is what `ethernetSend` says, if the block and the payload do not
overlap. -/
theorem transmitted_ethernetSendAt {ethFrame : Word} {heap : Heap}
    (hmalloc : malloc head (requestedSize call.lenPayload) m.heap = some (ethFrame, heap))
    (hfit : ethFrame.toNat + (14 + max call.lenPayload.toNat 46) < 2 ^ 32)
    (hsep : Separate ethFrame (14 + max call.lenPayload.toNat 46)
      call.payload (max call.lenPayload.toNat 46)) :
    ∃ m', ethernetSendAt head host call m = some m' ∧
      m'.nic.transmitted = m.nic.transmitted ++
        ethernetSend host call.destMac call.ethType (bytesFrom heap.mem call.payload)
          call.lenPayload (bytesFrom heap.mem ethFrame) := by
  refine ⟨_, ethernetSendAt_of_malloc hmalloc, ?_⟩
  unfold ethernetSend e1000SendPacket
  cases havail : host.available with
  | false =>
      rw [e1000SendPacketAt_of_not_available havail]
      simp
  | true =>
      rw [(e1000SendPacketAt_of_available havail _ _ _ _).1]
      simp only [if_true]
      refine congrArg (fun frame => m.nic.transmitted ++ [frame]) (List.map_congr_left fun k hk => ?_)
      have hlt := List.mem_range.mp hk
      rw [toNat_requestedSize_setWidth] at hlt
      exact image_fillFrameAt hfit hsep k (by omega)

end Send

/-! ### The length of a frame -/

section Lengths

variable {head : ListHead} {host : Host} {call : EthernetCall} {m : Machine}

/-- How far the payload field is filled, by the copy or by the padding. -/
def filledLen (lenPayload : Word) : Nat :=
  max (paddedLen lenPayload).toNat (lenPayload.toNat + (lenPadding lenPayload).toNat)

/-- A call transmits nothing, or no length on the way has been truncated. -/
def LengthsExact (head : ListHead) (host : Host) (call : EthernetCall) (m : Machine) : Prop :=
  ∀ m', ethernetSendAt head host call m = some m' → m'.nic.transmitted ≠ m.nic.transmitted →
    (requestedSize call.lenPayload).toNat = 14 + max call.lenPayload.toNat 46 ∧
    (m'.nic.txDescs m.nic.txCur).length.toNat = 14 + max call.lenPayload.toNat 46 ∧
    filledLen call.lenPayload = max call.lenPayload.toNat 46

theorem filledLen_eq (lenPayload : Word) : filledLen lenPayload = max lenPayload.toNat 46 := by
  rw [filledLen, toNat_paddedLen, toNat_lenPadding]
  omega

/-- A frame that is too long is announced with another length. -/
theorem not_lengthsExact (havail : host.available = true)
    (hreturns : (malloc head (requestedSize call.lenPayload) m.heap).isSome = true)
    (hlong : 65536 ≤ 14 + max call.lenPayload.toNat 46) : ¬ LengthsExact head host call m := by
  intro hexact
  obtain ⟨⟨ethFrame, heap⟩, hmalloc⟩ := Option.isSome_iff_exists.mp hreturns
  obtain ⟨hsent, hlength⟩ := e1000SendPacketAt_of_available havail
    (fillFrameAt host call ethFrame heap.mem) ethFrame
    ((requestedSize call.lenPayload).setWidth 16) m.nic
  have hannounced := (hexact _ (ethernetSendAt_of_malloc hmalloc) (by rw [hsent]; simp)).2.1
  rw [hlength, toNat_requestedSize_setWidth] at hannounced
  omega

end Lengths

/-- **The length of a frame.**  With a card that is there, and a `malloc` that
returns, the lengths are right exactly if the one of the frame fits into 16 bits. -/
theorem lengthsExact_iff (head : ListHead) (host : Host) (call : EthernetCall) (m : Machine) :
    LengthsExact head host call m ↔
      (host.available = true →
        (malloc head (requestedSize call.lenPayload) m.heap).isSome = true →
        14 + max call.lenPayload.toNat 46 < 65536) := by
  constructor
  · intro hexact havail hreturns
    by_contra hlong
    exact not_lengthsExact havail hreturns (Nat.not_lt.mp hlong) hexact
  · intro hshort m' hm' hsent
    cases hmalloc : malloc head (requestedSize call.lenPayload) m.heap with
    | none => simp [ethernetSendAt, hmalloc] at hm'
    | some result =>
        obtain ⟨ethFrame, heap⟩ := result
        obtain rfl := Option.some.inj ((ethernetSendAt_of_malloc hmalloc).symm.trans hm')
        cases havail : host.available with
        | false => exact absurd (by rw [e1000SendPacketAt_of_not_available havail]) hsent
        | true =>
            have hlt := hshort havail (by rw [hmalloc]; rfl)
            have hsize := toNat_requestedSize_setWidth call.lenPayload
            refine ⟨?_, ?_, filledLen_eq _⟩
            · have hsum : (requestedSize call.lenPayload).toNat =
                  (14 + max call.lenPayload.toNat 46) % 2 ^ 32 := by
                rw [requestedSize, BitVec.toNat_add, toNat_paddedLen]
                rfl
              omega
            · rw [(e1000SendPacketAt_of_available havail _ _ _ _).2, hsize]
              omega

/-- The heap at power-on, and a card that has sent nothing yet. -/
def freshMachine (head : ListHead) : Machine where
  heap := initialHeap head fun _ => 0
  nic := idleTransmitter

/-- A payload of 65522 bytes: the card is told to send a frame of length 0. -/
theorem payload_65522_truncated :
    ¬ LengthsExact ⟨0x8000, by decide⟩ versatileHost ⟨BROADCAST_MAC, TYPE_IPv4, 0x3000000, 65522⟩
      (freshMachine ⟨0x8000, by decide⟩) :=
  not_lengthsExact rfl rfl (by decide)

end Network
end Ninjastorms
