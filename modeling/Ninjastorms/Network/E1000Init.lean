import Ninjastorms.Libc.LiveContents
import Ninjastorms.Network.EthernetSend
import Ninjastorms.Network.RxInterrupt
import Ninjastorms.Pci.Enumeration

/-!
# Starting the network card

`e1000_init` and `start_e1000` of `kernel/network/e1000.c`.  The struct
`e1000_device_t` lies in a block of the heap and is written field by field; the
descriptors that the card shares with the driver are its first part.  What the
card answers to a read is a parameter (`CardReads`), and what is written to its
registers is listed in order.

The driver takes for granted that the buffers of the receive ring do not overlap
(`RxBuffers`).  `e1000Init_ready` is where this comes from: the 32 buffers are live
blocks of the allocator, each of them is in its descriptor, and the registers tell
the card where these lie.
-/

namespace Ninjastorms
namespace Network
namespace E1000Init

open Libc Lib.ByteMemory Lib.Runs Pci

/-! ### `e1000.h` -/

/-- `sizeof(e1000_device_t)`. -/
def sizeofE1000Device : Word := 664

/-- `sizeof(e1000_rx_desc_t)`, which is also that of a transmit descriptor. -/
def sizeofRxDesc : Nat := 16

/-- A field of `e1000_device_t`. -/
inductive Field where
  | txDescs
  | ioBase
  | memBase
  | eepromExists
  | mac
  | rxCur
  | txCur
  | pciDevice

/-- Where a field lies in the struct; the receive descriptors are in front of all. -/
def Field.place : Field → Nat
  | txDescs => 512
  | ioBase => 640
  | memBase => 644
  | eepromExists => 648
  | mac => 649
  | rxCur => 656
  | txCur => 658
  | pciDevice => 660

/-- How many bytes a field has. -/
def Field.size : Field → Nat
  | txDescs => 128
  | ioBase | memBase | pciDevice => 4
  | eepromExists => 1
  | mac => 6
  | rxCur | txCur => 2

/-- `INTEL_VEND` and `E1000_DEV`. -/
def INTEL_VEND : HalfWord := 0x8086

def E1000_DEV : HalfWord := 0x100E

def REG_CTRL : HalfWord := 0x0000
def REG_EEPROM : HalfWord := 0x0014
def REG_IMASK : HalfWord := 0x00D0
def REG_RCTRL : HalfWord := 0x0100
def REG_TCTRL : HalfWord := 0x0400
def REG_TIPG : HalfWord := 0x0410
def REG_RXDESCLO : HalfWord := 0x2800
def REG_RXDESCHI : HalfWord := 0x2804
def REG_RXDESCLEN : HalfWord := 0x2808
def REG_RXDESCHEAD : HalfWord := 0x2810
def REG_RXDESCTAIL : HalfWord := 0x2818
def REG_TXDESCLO : HalfWord := 0x3800
def REG_TXDESCHI : HalfWord := 0x3804
def REG_TXDESCLEN : HalfWord := 0x3808
def REG_TXDESCHEAD : HalfWord := 0x3810
def REG_TXDESCTAIL : HalfWord := 0x3818

/-- `RCTL_EN | RCTL_SBP | RCTL_UPE | RCTL_MPE | RCTL_LBM_NONE | RTCL_RDMTS_HALF |
RCTL_BAM | RCTL_SECRC | RCTL_BSIZE_8192`. -/
def receiveControl : Word :=
  (1 : Word) <<< 1 ||| (1 : Word) <<< 2 ||| (1 : Word) <<< 3 ||| (1 : Word) <<< 4 |||
    (0 : Word) <<< 6 ||| (0 : Word) <<< 8 ||| (1 : Word) <<< 15 ||| (1 : Word) <<< 26 |||
    ((2 : Word) <<< 16 ||| (1 : Word) <<< 25)

/-- `TCTL_EN | TCTL_PSP`. -/
def transmitControl : Word :=
  (1 : Word) <<< 1 ||| (1 : Word) <<< 3

/-! ### `e1000.c` -/

/-- What the card answers: the register of the EEPROM each time it is read, the
eight bytes at `MAC_OFFSET`, and the control registers. -/
structure CardReads where
  eeprom : Nat → Word
  macData : DoubleWord
  ctrl : Word
  tctrl : Word

/-- The heap, the configuration space of the bus, the variable `e1000`, and the
writes to the registers of the card so far. -/
structure Kernel where
  heap : Heap
  pci : Mem
  e1000 : Word
  commands : List (HalfWord × Word)

/-- `write_command`. -/
def writeCommand (address : HalfWord) (value : Word) (s : Kernel) : Kernel :=
  { s with commands := s.commands ++ [(address, value)] }

/-- An assignment to a field of the struct. -/
def setField (field : Field) (f : Nat → Byte) (s : Kernel) : Kernel :=
  let mem := writeBytes s.heap.mem (s.e1000 + BitVec.ofNat 32 field.place) field.size f
  { s with heap := { s.heap with mem := mem } }

/-- The loop of `detect_eeprom`: `turns` turns are left, the next is number `i`. -/
def eepromLoop (card : CardReads) : (turns i : Nat) → Kernel → Kernel
  | 0, _, s => s
  | turns + 1, i, s =>
      if s.heap.mem (s.e1000 + BitVec.ofNat 32 Field.eepromExists.place) = 0 then
        eepromLoop card turns (i + 1) (setField .eepromExists
          (fun _ => if card.eeprom i &&& 0x10 ≠ 0 then 1 else 0) s)
      else s

/-- `detect_eeprom`. -/
def detectEeprom (card : CardReads) (s : Kernel) : Kernel :=
  eepromLoop card 1000 0 (writeCommand REG_EEPROM 0x1 s)

/-- `read_e1000_hardware_address`. -/
def readE1000HardwareAddress (host : Host) (card : CardReads) (s : Kernel) : Kernel :=
  if card.macData <<< 16 ≠ 0 then
    setField .mac (macBytes (ntohMac host fun i => byteAt card.macData i)) s
  else s

/-- `start_link`. -/
def startLink (card : CardReads) (s : Kernel) : Kernel :=
  writeCommand REG_CTRL (card.ctrl ||| ECTRL_SLU) s

/-- `enable_interrupt`. -/
def enableInterrupt (s : Kernel) : Kernel :=
  writeCommand REG_IMASK 0x1F2D4 s

/-- The address of a receive descriptor. -/
def rxDescAddress (e1000 : Word) (i : RxIndex) : Word :=
  e1000 + BitVec.ofNat 32 (sizeofRxDesc * i.val)

/-- The assignments to `addr` and `status` of a descriptor. -/
def writeRxDesc (mem : Mem) (e1000 : Word) (i : RxIndex) (buffer : Word) : Mem :=
  let addr : DoubleWord := buffer.setWidth 64
  let mem := writeBytes mem (rxDescAddress e1000 i) 8 (byteAt addr)
  writeBytes mem (rxDescAddress e1000 i + 12) 1 fun _ => 0

/-- One turn of the loop of `init_receive_descriptors`. -/
def initRxDesc (head : ListHead) (e1000 : Word) (h : Heap) (i : RxIndex) : Option Heap :=
  match malloc head (BitVec.ofNat 32 (MAX_PACKET_SIZE + sizeofRxDesc)) h with
  | none => none
  | some (buffer, h) => some { h with mem := writeRxDesc h.mem e1000 i buffer }

/-- What `init_receive_descriptors` does behind its loop. -/
def publishReceiveRing (s : Kernel) : Kernel :=
  let s := writeCommand REG_RXDESCLO s.e1000 s
  let s := writeCommand REG_RXDESCHI 0 s
  let s := writeCommand REG_RXDESCLEN (BitVec.ofNat 32 (E1000_NUM_RX_DESC * sizeofRxDesc)) s
  let s := writeCommand REG_RXDESCHEAD 0 s
  let s := writeCommand REG_RXDESCTAIL (BitVec.ofNat 32 (E1000_NUM_RX_DESC - 1)) s
  let s := setField .rxCur (fun _ => 0) s
  writeCommand REG_RCTRL receiveControl s

/-- `init_receive_descriptors`. -/
def initReceiveDescriptors (head : ListHead) (s : Kernel) : Option Kernel :=
  match (List.finRange E1000_NUM_RX_DESC).foldlM (initRxDesc head s.e1000) s.heap with
  | none => none
  | some h => some (publishReceiveRing { s with heap := h })

/-- `init_transmit_descriptors`. -/
def initTransmitDescriptors (card : CardReads) (s : Kernel) : Kernel :=
  let s := writeCommand REG_TXDESCLO (s.e1000 + BitVec.ofNat 32 Field.txDescs.place) s
  let s := writeCommand REG_TXDESCHI 0 s
  let s := writeCommand REG_TXDESCLEN (BitVec.ofNat 32 (E1000_NUM_TX_DESC * sizeofRxDesc)) s
  let s := writeCommand REG_TXDESCHEAD 0 s
  let s := writeCommand REG_TXDESCTAIL 0 s
  let s := setField .txCur (fun _ => 0) s
  let s := writeCommand REG_TCTRL (card.tctrl ||| transmitControl) s
  writeCommand REG_TIPG 0x0060200A s

/-- `start_e1000`. -/
def startE1000 (head : ListHead) (host : Host) (card : CardReads) (s : Kernel) : Option Kernel :=
  let s := detectEeprom card s
  let s := readE1000HardwareAddress host card s
  let s := startLink card s
  let s := enableInterrupt s
  (initReceiveDescriptors head s).map (initTransmitDescriptors card)

/-- The pointer to an entry of `pci_devices`, an array of 20 bytes an entry. -/
def pciDevicePointer (pciDevices : Word) : Option PciIndex → Word
  | none => 0
  | some i => pciDevices + BitVec.ofNat 32 (20 * i.val)

/-- What `e1000_init` does with the card that it has found, up to `start_e1000`. -/
def configureCard (hw : Latch) (device : PciDevice) (s : Kernel) : Kernel :=
  let (memBase, pci) := pciAllocMemory hw s.pci device 0
  let s := setField .memBase (byteAt memBase) { s with pci := pci }
  let (ioBase, pci) := pciAllocMemory hw s.pci device 1
  let s := setField .ioBase (byteAt ioBase) { s with pci := pci }
  { s with pci := pciEnableBusMastering hw s.pci device.configBase }

/-- `e1000_init`; it is `none` when a call of `malloc` does not return. -/
def e1000Init (head : ListHead) (host : Host) (hw : Latch) (pciDevices : Word)
    (devices : PciIndex → PciDevice) (card : CardReads) (s : Kernel) : Option Kernel :=
  match malloc head sizeofE1000Device s.heap with
  | none => none
  | some (e1000, heap) =>
      let s := { s with heap := heap, e1000 := e1000 }
      if e1000 = 0 then some s
      else
        let found := pciGetDevice devices INTEL_VEND E1000_DEV
        let s := setField .pciDevice (byteAt (pciDevicePointer pciDevices found)) s
        match found with
        | none => some s
        | some i => startE1000 head host card (configureCard hw (devices i) s)

/-! ### What is promised -/

/-- A receive descriptor as it lies in memory. -/
def rxDescAt (mem : Mem) (e1000 : Word) (i : RxIndex) : RxDesc where
  addr := readLE mem (rxDescAddress e1000 i) 8
  length := readLE mem (rxDescAddress e1000 i + 8) 2
  status := mem (rxDescAddress e1000 i + 12)

/-- The value that was written to a register last. -/
def register (reg : HalfWord) (s : Kernel) : Option Word :=
  lastFixed (fun command => if command.1 = reg then some command.2 else none) s.commands

/-- A register or a field that holds an index into the ring. -/
def toIndex (v : Word) : RxIndex :=
  ⟨v.toNat % E1000_NUM_RX_DESC, Nat.mod_lt v.toNat (Nat.succ_pos 31)⟩

/-- The receive ring that the card and the driver see. -/
def ringOf (s : Kernel) : RxRing where
  rxDescs := rxDescAt s.heap.mem s.e1000
  mem := s.heap.mem
  head := toIndex ((register REG_RXDESCHEAD s).getD 0)
  tail := toIndex ((register REG_RXDESCTAIL s).getD 0)
  rxCur := toIndex ((readLE s.heap.mem (s.e1000 + BitVec.ofNat 32 Field.rxCur.place) 2).setWidth 32)
  pc := .entry
  stored := []
  passed := []

/-- The block of the struct. -/
def deviceBlock (e1000 : Word) : Block :=
  ⟨e1000, sizeofE1000Device⟩

/-- The block that a descriptor points to. -/
def bufferBlock (mem : Mem) (e1000 : Word) (i : RxIndex) : Block :=
  ⟨(rxDescAt mem e1000 i).addr.setWidth 32, BitVec.ofNat 32 (MAX_PACKET_SIZE + sizeofRxDesc)⟩

/-- What `e1000_init` has done to a program that has used the heap before (`c`).  The
card and the driver see the ring that `receive_packet` starts from.  The card knows
where the descriptors are, and each of them points to a block of its own that is
aligned to 16 bytes.  The blocks of before are live, and hold what they held. -/
def RingReady (head : ListHead) (c : Client) (s : Kernel) : Prop :=
  ∃ (buffers : RxBuffers) (lengths : RxIndex → HalfWord) (live : List Block),
    ringOf s = Network.initReceiveDescriptors buffers lengths s.heap.mem ∧
    register REG_RXDESCLO s = some s.e1000 ∧
    register REG_RXDESCLEN s = some (BitVec.ofNat 32 (E1000_NUM_RX_DESC * sizeofRxDesc)) ∧
    Safe head ⟨s.heap, live, false⟩ ∧
    (∀ i, ⟨buffers.addr i, BitVec.ofNat 32 (MAX_PACKET_SIZE + sizeofRxDesc)⟩ ∈ live ∧
      16 ∣ (buffers.addr i).toNat) ∧
    deviceBlock s.e1000 ∈ live ∧
    ∀ b ∈ c.live, b ∈ live ∧ ∀ x, InArea b x → s.heap.mem x = c.heap.mem x

/-! ### The descriptors in memory -/

theorem rxDescAddress_add (e1000 : Word) (i : RxIndex) (k : Nat) :
    rxDescAddress e1000 i + BitVec.ofNat 32 k =
      e1000 + BitVec.ofNat 32 (16 * i.val + k) := by
  rw [rxDescAddress, sizeofRxDesc, BitVec.add_assoc, BitVec.ofNat_add]

theorem readLE_congr {m m' : Mem} {a : Word} {n : Nat}
    (h : ∀ k < n, m (a + BitVec.ofNat 32 k) = m' (a + BitVec.ofNat 32 k)) :
    readLE m a n = readLE m' a n := by
  apply eq_of_byteAt
  intro k hk
  rw [byteAt_readLE m a hk, byteAt_readLE m' a hk, h k hk]

/-- A descriptor is made of its 16 bytes. -/
theorem rxDescAt_congr {m m' : Mem} {e1000 : Word} {i : RxIndex}
    (h : ∀ k < 16, m (rxDescAddress e1000 i + BitVec.ofNat 32 k) =
      m' (rxDescAddress e1000 i + BitVec.ofNat 32 k)) :
    rxDescAt m e1000 i = rxDescAt m' e1000 i := by
  have haddr : readLE m (rxDescAddress e1000 i) 8 = readLE m' (rxDescAddress e1000 i) 8 :=
    readLE_congr fun k hk => h k (by omega)
  have hlength : readLE m (rxDescAddress e1000 i + 8) 2 =
      readLE m' (rxDescAddress e1000 i + 8) 2 := by
    refine readLE_congr fun k hk => ?_
    have hsum : rxDescAddress e1000 i + 8 + BitVec.ofNat 32 k =
        rxDescAddress e1000 i + BitVec.ofNat 32 (8 + k) := by
      rw [BitVec.ofNat_add, ← BitVec.add_assoc]
      rfl
    rw [hsum]
    exact h (8 + k) (by omega)
  have hstatus : m (rxDescAddress e1000 i + 12) = m' (rxDescAddress e1000 i + 12) :=
    h 12 (by omega)
  simp only [rxDescAt, haddr, hlength, hstatus]

/-- A write to the struct reaches a descriptor only where it overlaps it. -/
theorem rxDescAt_writeBytes {m : Mem} {e1000 : Word} {i : RxIndex} {place n : Nat}
    {f : Nat → Byte} (hn : place + n ≤ 2 ^ 32)
    (hout : place + n ≤ 16 * i.val ∨ 16 * i.val + 16 ≤ place) :
    rxDescAt (writeBytes m (e1000 + BitVec.ofNat 32 place) n f) e1000 i = rxDescAt m e1000 i := by
  have hi : i.val < 32 := i.isLt
  refine rxDescAt_congr fun k hk => ?_
  rw [rxDescAddress_add, writeBytes_offset m e1000 f hn (by omega), if_neg (by omega)]

theorem rxDescAt_writeRxDesc_self (m : Mem) (e1000 : Word) (i : RxIndex) (buffer : Word) :
    (rxDescAt (writeRxDesc m e1000 i buffer) e1000 i).addr = buffer.setWidth 64 ∧
    (rxDescAt (writeRxDesc m e1000 i buffer) e1000 i).status = 0 := by
  constructor
  · apply eq_of_byteAt (m := 8)
    intro k hk
    simp only [rxDescAt, writeRxDesc]
    rw [byteAt_readLE _ _ hk, show (12 : Word) = BitVec.ofNat 32 12 from rfl,
      writeBytes_offset _ _ _ (by omega) (by omega), if_neg (by omega),
      writeBytes_at hk (by omega)]
  · simp only [rxDescAt, writeRxDesc]
    exact writeBytes_inside (by simp)

theorem rxDescAt_writeRxDesc_of_ne (m : Mem) (e1000 : Word) {i j : RxIndex} (hne : j ≠ i)
    (buffer : Word) : rxDescAt (writeRxDesc m e1000 i buffer) e1000 j = rxDescAt m e1000 j := by
  have hi : i.val < 32 := i.isLt
  have hval : j.val ≠ i.val := fun heq => hne (Fin.ext heq)
  simp only [writeRxDesc]
  rw [show (12 : Word) = BitVec.ofNat 32 12 from rfl, rxDescAddress_add,
    rxDescAt_writeBytes (by omega) (by omega), rxDescAddress, sizeofRxDesc,
    rxDescAt_writeBytes (by omega) (by omega)]

/-! ### The loop -/

/-- What holds after `malloc` has returned the struct: beside it and the blocks of
before, exactly the buffers of the descriptors that are done are live, and the
blocks of before hold what they held.  `done` lists the descriptors in the order of
the loop, and `pending` is a buffer that is not yet in a descriptor. -/
structure Prepared (head : ListHead) (c₀ : Client) (e1000 : Word) (pending : Option Block)
    (done : List RxIndex) (c : Client) : Prop where
  inv : Inv head c
  live : c.live = pending.toList ++ ((done.map (bufferBlock c.heap.mem e1000)).reverse ++
    deviceBlock e1000 :: c₀.live)
  addr : ∀ i ∈ done, ((rxDescAt c.heap.mem e1000 i).addr.setWidth 32).setWidth 64 =
    (rxDescAt c.heap.mem e1000 i).addr
  status : ∀ i ∈ done, (rxDescAt c.heap.mem e1000 i).status = 0
  kept : ∀ b ∈ c₀.live, ∀ x, InArea b x → c.heap.mem x = c₀.heap.mem x
  room : c.heap.currentHeapAddress.toNat ≤
    c₀.heap.currentHeapAddress.toNat + 688 + 8224 * (done.length + pending.toList.length)

section Loop

variable {head : ListHead} {c₀ c : Client} {e1000 : Word} {pending : Option Block}
  {done : List RxIndex}

theorem Prepared.device_mem (h : Prepared head c₀ e1000 pending done c) : deviceBlock e1000 ∈ c.live := by
  rw [h.live]
  simp

theorem Prepared.old_mem (h : Prepared head c₀ e1000 pending done c) {b : Block} (hb : b ∈ c₀.live) :
    b ∈ c.live := by
  rw [h.live]
  simp [hb]

/-- The struct is none of the blocks of before. -/
theorem Prepared.separate_old (h : Prepared head c₀ e1000 pending done c) {b : Block} (hb : b ∈ c₀.live) :
    Separate (deviceBlock e1000).ptr (deviceBlock e1000).size.toNat b.ptr b.size.toNat := by
  obtain ⟨free, blocks, hshape⟩ := h.inv
  refine hshape.separate_areas h.device_mem (h.old_mem hb) fun heq => ?_
  have hnodup := (List.nodup_append.mp hshape.nodup).2.1
  rw [h.live, ← List.append_assoc, List.map_append, List.map_cons] at hnodup
  have hnot := (List.nodup_cons.mp (List.nodup_append.mp hnodup).2.1).1
  rw [heq] at hnot
  exact hnot (List.mem_map_of_mem hb)

/-- Writes to the struct that leave the descriptors as they are. -/
theorem Prepared.write (h : Prepared head c₀ e1000 pending done c) {mem : Mem}
    (hwrites : WritesInto c (deviceBlock e1000) mem)
    (hdescs : ∀ i ∈ done, rxDescAt mem e1000 i = rxDescAt c.heap.mem e1000 i) :
    Prepared head c₀ e1000 pending done { c with heap := { c.heap with mem := mem } } := by
  obtain ⟨free, blocks, hshape⟩ := h.inv
  refine ⟨inv_write hshape h.device_mem hwrites, ?_, fun i hi => ?_, fun i hi => ?_,
    fun b hb x hx => ?_, h.room⟩
  · have hblocks : done.map (bufferBlock mem e1000) = done.map (bufferBlock c.heap.mem e1000) :=
      List.map_congr_left fun i hi => by rw [bufferBlock, bufferBlock, hdescs i hi]
    simp only [hblocks]
    exact h.live
  · simp only [hdescs i hi]
    exact h.addr i hi
  · simp only [hdescs i hi]
    exact h.status i hi
  · have hout : ¬ offset (deviceBlock e1000).ptr x < (deviceBlock e1000).size.toNat :=
      fun hin => h.separate_old hb x ⟨hin, hx⟩
    exact (hwrites x hout).trans (h.kept b hb x hx)

/-- A field lies in the struct, behind the receive descriptors. -/
theorem Field.bounds (field : Field) : 512 ≤ field.place ∧ field.place + field.size ≤ 664 := by
  cases field <;> decide

theorem writesInto_place (c : Client) (e1000 : Word) (place n : Nat) (f : Nat → Byte)
    (hin : place + n ≤ 664) :
    WritesInto c (deviceBlock e1000)
      (writeBytes c.heap.mem (e1000 + BitVec.ofNat 32 place) n f) := by
  intro x hx
  refine writeBytes_outside fun hlt => hx ?_
  have hoff := (offset_add_lt_iff e1000 x (by omega)).mp hlt
  have hsize : (deviceBlock e1000).size.toNat = 664 := rfl
  show offset e1000 x < _
  omega

theorem Prepared.setField (h : Prepared head c₀ e1000 pending done c) (field : Field) (f : Nat → Byte) :
    Prepared head c₀ e1000 pending done { c with heap := { c.heap with
      mem := writeBytes c.heap.mem (e1000 + BitVec.ofNat 32 field.place) field.size f } } := by
  obtain ⟨hlow, hhigh⟩ := field.bounds
  refine h.write (writesInto_place c e1000 _ _ f hhigh) fun i _ => ?_
  have hi : i.val < 32 := i.isLt
  exact rxDescAt_writeBytes (by omega) (Or.inr (by omega))

theorem writesInto_writeRxDesc (c : Client) (e1000 : Word) (i : RxIndex) (buffer : Word) :
    WritesInto c (deviceBlock e1000) (writeRxDesc c.heap.mem e1000 i buffer) := by
  have hi : i.val < 32 := i.isLt
  have hfirst := writesInto_place c e1000 (16 * i.val) 8 (byteAt (buffer.setWidth 64 : DoubleWord))
    (by omega)
  intro x hx
  refine Eq.trans ?_ (hfirst x hx)
  unfold writeRxDesc
  refine writeBytes_outside fun hlt => hx ?_
  rw [show (12 : Word) = BitVec.ofNat 32 12 from rfl, rxDescAddress_add,
    offset_add_lt_iff e1000 x (by omega)] at hlt
  have hsize : (deviceBlock e1000).size.toNat = 664 := rfl
  show offset e1000 x < _
  omega

/-- `malloc` changes no descriptor. -/
theorem Prepared.rxDescAt_malloc (h : Prepared head c₀ e1000 pending done c) {size : Word}
    (hfits : Fits c size) (i : RxIndex) :
    rxDescAt (step head c (.malloc size)).heap.mem e1000 i = rxDescAt c.heap.mem e1000 i := by
  obtain ⟨free, blocks, hshape⟩ := h.inv
  have hi : i.val < 32 := i.isLt
  refine rxDescAt_congr fun k hk => malloc_keeps_area hshape hfits h.device_mem ?_
  rw [rxDescAddress_add, InArea, show (deviceBlock e1000).ptr = e1000 from rfl,
    offset_add_ofNat e1000 (by omega)]
  have hsize : (deviceBlock e1000).size.toNat = 664 := rfl
  omega

/-- The request for a buffer. -/
theorem Prepared.malloc (h : Prepared head c₀ e1000 none done c)
    (hroom : c.heap.currentHeapAddress.toNat + 8224 ≤ HEAP_START.toNat + HEAP_SIZE.toNat) :
    ∃ buffer heap, Libc.malloc head 8208 c.heap = some (buffer, heap) ∧
      Prepared head c₀ e1000 (some ⟨buffer, 8208⟩) done ⟨heap, ⟨buffer, 8208⟩ :: c.live, c.hung⟩ := by
  obtain ⟨free, blocks, hshape⟩ := h.inv
  have htotal : (align16 ((8208 : Word) + overhead)).toNat = 8224 := by decide
  obtain ⟨buffer, heap, hcall, -, hstep, hbreak⟩ :=
    hshape.malloc_succeeds (show (8208 : Word).toNat + 31 < 2 ^ 32 by decide) (by omega)
  have hfits : Fits c 8208 := hshape.fits (by decide)
  have hinv := inv_malloc hshape hfits
  have hsame := h.rxDescAt_malloc hfits
  have hkept : ∀ b ∈ c₀.live, ∀ x, InArea b x →
      (step head c (.malloc 8208)).heap.mem x = c₀.heap.mem x := fun b hb x hx =>
    (malloc_keeps_area hshape hfits (h.old_mem hb) hx).trans (h.kept b hb x hx)
  rw [hstep] at hinv hsame hkept
  have hblocks : done.map (bufferBlock heap.mem e1000) = done.map (bufferBlock c.heap.mem e1000) :=
    List.map_congr_left fun i _ => by rw [bufferBlock, bufferBlock, hsame i]
  refine ⟨buffer, heap, hcall, hinv, ?_, fun i hi => ?_, fun i hi => ?_, hkept, ?_⟩
  · simp only [hblocks]
    rw [h.live]
    rfl
  · rw [hsame i]
    exact h.addr i hi
  · rw [hsame i]
    exact h.status i hi
  · have hbound := h.room
    simp only [Option.toList_none, Option.toList_some, List.length_nil, List.length_singleton]
      at hbound ⊢
    omega

/-- The buffer is in the descriptor `i`. -/
theorem Prepared.publish {buffer : Word} {i : RxIndex}
    (h : Prepared head c₀ e1000 (some ⟨buffer, 8208⟩) done c)
    (haddr : (rxDescAt c.heap.mem e1000 i).addr = buffer.setWidth 64)
    (hstatus : (rxDescAt c.heap.mem e1000 i).status = 0) :
    Prepared head c₀ e1000 none (done ++ [i]) c := by
  have hback : ((buffer.setWidth 64).setWidth 32 : Word) = buffer :=
    BitVec.setWidth_setWidth_of_le buffer (by decide)
  have hblock : bufferBlock c.heap.mem e1000 i = ⟨buffer, 8208⟩ := by
    rw [bufferBlock, haddr, hback]
    rfl
  refine ⟨h.inv, ?_, fun j hj => ?_, fun j hj => ?_, h.kept, ?_⟩
  · rw [h.live, List.map_append, List.reverse_append, List.map_singleton, hblock]
    rfl
  · rcases List.mem_append.mp hj with hold | hnew
    · exact h.addr j hold
    · rw [List.mem_singleton.mp hnew, haddr, hback]
  · rcases List.mem_append.mp hj with hold | hnew
    · exact h.status j hold
    · rw [List.mem_singleton.mp hnew]
      exact hstatus
  · have hbound := h.room
    simp only [Option.toList_none, Option.toList_some, List.length_nil, List.length_singleton,
      List.length_append] at hbound ⊢
    omega

/-- **One turn of the loop.** -/
theorem Prepared.turn (h : Prepared head c₀ e1000 none done c) {i : RxIndex} (hi : i ∉ done)
    (hroom : c.heap.currentHeapAddress.toNat + 8224 ≤ HEAP_START.toNat + HEAP_SIZE.toNat) :
    ∃ heap live, initRxDesc head e1000 c.heap i = some heap ∧
      Prepared head c₀ e1000 none (done ++ [i]) ⟨heap, live, c.hung⟩ := by
  obtain ⟨buffer, heap, hcall, hpending⟩ := h.malloc hroom
  have hwritten := hpending.write (writesInto_writeRxDesc _ e1000 i buffer) fun j hj => by
    have hne : j ≠ i := fun heq => hi (heq ▸ hj)
    exact rxDescAt_writeRxDesc_of_ne heap.mem e1000 hne buffer
  obtain ⟨haddr, hstatus⟩ := rxDescAt_writeRxDesc_self heap.mem e1000 i buffer
  refine ⟨_, _, ?_, hwritten.publish haddr hstatus⟩
  rw [initRxDesc, show BitVec.ofNat 32 (MAX_PACKET_SIZE + sizeofRxDesc) = 8208 from rfl, hcall]

/-- **The loop**: all descriptors have a buffer. -/
theorem Prepared.loop (h : Prepared head c₀ e1000 none [] c)
    (hroom : c₀.heap.currentHeapAddress.toNat + 263856 ≤ HEAP_START.toNat + HEAP_SIZE.toNat) :
    ∃ heap live, (List.finRange E1000_NUM_RX_DESC).foldlM (initRxDesc head e1000) c.heap =
        some heap ∧
      Prepared head c₀ e1000 none (List.finRange E1000_NUM_RX_DESC) ⟨heap, live, c.hung⟩ := by
  have hlength : (List.finRange E1000_NUM_RX_DESC).length = 32 := List.length_finRange
  have hnodup := List.nodup_finRange E1000_NUM_RX_DESC
  have hturn : ∀ done i rest, List.finRange E1000_NUM_RX_DESC = done ++ i :: rest → ∀ heap,
      (∃ live, Prepared head c₀ e1000 none done ⟨heap, live, c.hung⟩) →
      ∃ heap', initRxDesc head e1000 heap i = some heap' ∧
        ∃ live, Prepared head c₀ e1000 none (done ++ [i]) ⟨heap', live, c.hung⟩ := by
    rintro done i rest hall heap ⟨live, hdone⟩
    rw [hall] at hlength hnodup
    have hi : i ∉ done := fun hmem => (List.nodup_append.mp hnodup).2.2 i hmem i (by simp) rfl
    have hbound := hdone.room
    simp only [List.length_append, List.length_cons, Option.toList_none, List.length_nil]
      at hlength hbound
    obtain ⟨heap', live', hturn, hprepared⟩ := hdone.turn hi (by dsimp only; omega)
    exact ⟨heap', hturn, live', hprepared⟩
  obtain ⟨heap, hloop, live, hlast⟩ := exists_foldlM
    (fun done heap => ∃ live, Prepared head c₀ e1000 none done ⟨heap, live, c.hung⟩) hturn
    ⟨c.live, h⟩
  exact ⟨heap, live, hloop, hlast⟩

theorem Prepared.buffer_mem (h : Prepared head c₀ e1000 none (List.finRange E1000_NUM_RX_DESC) c)
    (i : RxIndex) : bufferBlock c.heap.mem e1000 i ∈ c.live := by
  rw [h.live]
  simp

/-- The buffers do not overlap. -/
theorem Prepared.separate_buffers
    (h : Prepared head c₀ e1000 none (List.finRange E1000_NUM_RX_DESC) c) {i j : RxIndex}
    (hne : i ≠ j) :
    Separate (bufferBlock c.heap.mem e1000 i).ptr MAX_PACKET_SIZE
      (bufferBlock c.heap.mem e1000 j).ptr MAX_PACKET_SIZE := by
  have hsize : MAX_PACKET_SIZE ≤ (BitVec.ofNat 32 (MAX_PACKET_SIZE + sizeofRxDesc)).toNat := by
    decide
  have hlive : ∀ i, bufferBlock c.heap.mem e1000 i ∈ c.live := h.buffer_mem
  obtain ⟨free, blocks, hshape⟩ := h.inv
  have hnodup : ((List.finRange E1000_NUM_RX_DESC).map fun i =>
      (bufferBlock c.heap.mem e1000 i).header).Nodup := by
    have hall := (List.nodup_append.mp hshape.nodup).2.1
    rw [h.live, Option.toList_none, List.nil_append, List.map_append, List.map_reverse] at hall
    have hbuffers := List.nodup_reverse.mp (List.nodup_append.mp hall).1
    rwa [List.map_map] at hbuffers
  have hheader : (bufferBlock c.heap.mem e1000 i).header ≠ (bufferBlock c.heap.mem e1000 j).header :=
    fun heq => hne (List.inj_on_of_nodup_map hnodup (List.mem_finRange i) (List.mem_finRange j) heq)
  exact (hshape.separate_areas (hlive i) (hlive j) hheader).mono hsize hsize

end Loop

/-! ### Around the loop -/

@[simp] theorem register_writeCommand (reg address : HalfWord) (value : Word) (s : Kernel) :
    register reg (writeCommand address value s) =
      if address = reg then some value else register reg s := by
  simp only [register, writeCommand, lastFixed, List.reverse_append, List.reverse_singleton,
    List.singleton_append, List.findSome?_cons]
  by_cases h : address = reg
  · rw [if_pos h, if_pos h]
  · rw [if_neg h, if_neg h]

@[simp] theorem register_setField (reg : HalfWord) (field : Field) (f : Nat → Byte) (s : Kernel) :
    register reg (setField field f s) = register reg s := rfl

/-- The bytes of a field after an assignment to a field. -/
theorem setField_at (field other : Field) (f : Nat → Byte) (s : Kernel) {k : Nat}
    (hk : other.place + k < 664) :
    (setField field f s).heap.mem (s.e1000 + BitVec.ofNat 32 (other.place + k)) =
      if field.place ≤ other.place + k ∧ other.place + k < field.place + field.size then
        f (other.place + k - field.place)
      else s.heap.mem (s.e1000 + BitVec.ofNat 32 (other.place + k)) := by
  have hbounds := field.bounds
  exact writeBytes_offset _ _ _ (by omega) (by omega)

/-- The struct is at `e1000`, and the heap is prepared. -/
structure Ready (head : ListHead) (c₀ : Client) (e1000 : Word) (done : List RxIndex)
    (live : List Block) (s : Kernel) : Prop where
  device : s.e1000 = e1000
  heap : Prepared head c₀ e1000 none done ⟨s.heap, live, false⟩

section Kernel

variable {head : ListHead} {c₀ : Client} {e1000 : Word} {done : List RxIndex} {live : List Block}
  {s : Kernel}

theorem Ready.writeCommand (h : Ready head c₀ e1000 done live s) (address : HalfWord)
    (value : Word) : Ready head c₀ e1000 done live (writeCommand address value s) :=
  ⟨h.device, h.heap⟩

theorem Ready.setField (h : Ready head c₀ e1000 done live s) (field : Field) (f : Nat → Byte) :
    Ready head c₀ e1000 done live (setField field f s) := by
  refine ⟨h.device, ?_⟩
  have hset := h.heap.setField field f
  rw [← h.device] at hset ⊢
  exact hset

theorem Ready.pci (h : Ready head c₀ e1000 done live s) (pci : Mem) :
    Ready head c₀ e1000 done live { s with pci := pci } :=
  ⟨h.device, h.heap⟩

theorem Ready.eepromLoop (h : Ready head c₀ e1000 done live s) (card : CardReads)
    (turns i : Nat) : Ready head c₀ e1000 done live (eepromLoop card turns i s) := by
  induction turns generalizing i s with
  | zero => exact h
  | succ turns ih =>
      rw [E1000Init.eepromLoop]
      split
      · exact ih (h.setField .eepromExists _) (i + 1)
      · exact h

theorem Ready.readMac (h : Ready head c₀ e1000 done live s) (host : Host) (card : CardReads) :
    Ready head c₀ e1000 done live (readE1000HardwareAddress host card s) := by
  unfold readE1000HardwareAddress
  split
  · exact h.setField .mac _
  · exact h

theorem Ready.configureCard (h : Ready head c₀ e1000 done live s) (hw : Latch)
    (device : PciDevice) : Ready head c₀ e1000 done live (configureCard hw device s) :=
  ((((h.pci _).setField .memBase _).pci _).setField .ioBase _).pci _

/-- The struct has the ring, and the card knows it: what `init_receive_descriptors`
has done. -/
structure RingSet (s : Kernel) : Prop where
  base : register REG_RXDESCLO s = some s.e1000
  length : register REG_RXDESCLEN s = some (BitVec.ofNat 32 (E1000_NUM_RX_DESC * sizeofRxDesc))
  first : register REG_RXDESCHEAD s = some 0
  last : register REG_RXDESCTAIL s = some (BitVec.ofNat 32 (E1000_NUM_RX_DESC - 1))
  cur : ∀ k < Field.rxCur.size,
    s.heap.mem (s.e1000 + BitVec.ofNat 32 (Field.rxCur.place + k)) = 0

theorem Ready.publishReceiveRing (h : Ready head c₀ e1000 done live s) :
    Ready head c₀ e1000 done live (publishReceiveRing s) ∧ RingSet (publishReceiveRing s) := by
  refine ⟨?_, ?_, ?_, ?_, ?_, fun k hk => ?_⟩
  · exact ((((((h.writeCommand REG_RXDESCLO _).writeCommand REG_RXDESCHI 0).writeCommand
      REG_RXDESCLEN _).writeCommand REG_RXDESCHEAD 0).writeCommand REG_RXDESCTAIL _).setField .rxCur
      fun _ => 0).writeCommand REG_RCTRL _
  · simp only [E1000Init.publishReceiveRing, register_writeCommand, register_setField]
    rfl
  · simp only [E1000Init.publishReceiveRing, register_writeCommand, register_setField]
    rfl
  · simp only [E1000Init.publishReceiveRing, register_writeCommand, register_setField]
    rfl
  · simp only [E1000Init.publishReceiveRing, register_writeCommand, register_setField]
    rfl
  · have hrange : Field.rxCur.place + k < 664 := by
      have hbounds := Field.rxCur.bounds
      omega
    exact (setField_at .rxCur .rxCur (fun _ => 0) _ hrange).trans (if_pos (by omega))

theorem Ready.initReceiveDescriptors (h : Ready head c₀ e1000 [] live s)
    (hroom : c₀.heap.currentHeapAddress.toNat + 263856 ≤ HEAP_START.toNat + HEAP_SIZE.toNat) :
    ∃ s' live', initReceiveDescriptors head s = some s' ∧
      Ready head c₀ e1000 (List.finRange E1000_NUM_RX_DESC) live' s' ∧ RingSet s' := by
  obtain ⟨heap, live', hloop, hall⟩ := h.heap.loop hroom
  rw [← h.device] at hloop
  have hready : Ready head c₀ e1000 (List.finRange E1000_NUM_RX_DESC) live'
      { s with heap := heap } := ⟨h.device, hall⟩
  refine ⟨_, live', ?_, hready.publishReceiveRing⟩
  rw [E1000Init.initReceiveDescriptors, hloop]

theorem Ready.initTransmitDescriptors (h : Ready head c₀ e1000 done live s) (hring : RingSet s)
    (card : CardReads) :
    Ready head c₀ e1000 done live (initTransmitDescriptors card s) ∧
    RingSet (initTransmitDescriptors card s) := by
  refine ⟨?_, ?_, ?_, ?_, ?_, fun k hk => ?_⟩
  · exact (((((((h.writeCommand REG_TXDESCLO _).writeCommand REG_TXDESCHI 0).writeCommand
      REG_TXDESCLEN _).writeCommand REG_TXDESCHEAD 0).writeCommand REG_TXDESCTAIL 0).setField .txCur
      fun _ => 0).writeCommand REG_TCTRL _).writeCommand REG_TIPG _
  · simp only [E1000Init.initTransmitDescriptors, register_writeCommand, register_setField]
    exact hring.base
  · simp only [E1000Init.initTransmitDescriptors, register_writeCommand, register_setField]
    exact hring.length
  · simp only [E1000Init.initTransmitDescriptors, register_writeCommand, register_setField]
    exact hring.first
  · simp only [E1000Init.initTransmitDescriptors, register_writeCommand, register_setField]
    exact hring.last
  · have hk' : k < 2 := hk
    have hrange : Field.rxCur.place + k < 664 := by
      have hbounds := Field.rxCur.bounds
      omega
    have hother : ¬ (Field.txCur.place ≤ Field.rxCur.place + k ∧
        Field.rxCur.place + k < Field.txCur.place + Field.txCur.size) := by
      show ¬ (658 ≤ 656 + k ∧ _)
      omega
    exact ((setField_at .txCur .rxCur (fun _ => 0) _ hrange).trans (if_neg hother)).trans
      (hring.cur k hk)

/-- `start_e1000` succeeds. -/
theorem Ready.startE1000 (h : Ready head c₀ e1000 [] live s)
    (hroom : c₀.heap.currentHeapAddress.toNat + 263856 ≤ HEAP_START.toNat + HEAP_SIZE.toNat)
    (host : Host) (card : CardReads) :
    ∃ s' live', startE1000 head host card s = some s' ∧
      Ready head c₀ e1000 (List.finRange E1000_NUM_RX_DESC) live' s' ∧ RingSet s' := by
  have hbefore := ((((h.writeCommand REG_EEPROM 0x1).eepromLoop card 1000 0).readMac host
    card).writeCommand REG_CTRL (card.ctrl ||| ECTRL_SLU)).writeCommand REG_IMASK 0x1F2D4
  obtain ⟨s', live', hinit, hready, hring⟩ := hbefore.initReceiveDescriptors hroom
  obtain ⟨hready', hring'⟩ := hready.initTransmitDescriptors hring card
  refine ⟨E1000Init.initTransmitDescriptors card s', live', ?_, hready', hring'⟩
  exact congrArg (Option.map (E1000Init.initTransmitDescriptors card)) hinit

/-- `malloc` returns the struct. -/
theorem ready_of_malloc {c : Client} (hinv : Inv head c) (hheap : s.heap = c.heap)
    (hroom : c.heap.currentHeapAddress.toNat + 263856 ≤ HEAP_START.toNat + HEAP_SIZE.toNat) :
    ∃ e1000 heap live, Libc.malloc head sizeofE1000Device s.heap = some (e1000, heap) ∧
      e1000 ≠ 0 ∧ Ready head c e1000 [] live { s with heap := heap, e1000 := e1000 } := by
  obtain ⟨free, blocks, hshape⟩ := hinv
  have htotal : (align16 (sizeofE1000Device + overhead)).toNat = 688 := by decide
  have hfits : Fits c sizeofE1000Device := hshape.fits (by decide)
  obtain ⟨e1000, heap, hcall, hne, hstep, hbreak⟩ :=
    hshape.malloc_succeeds (show sizeofE1000Device.toNat + 31 < 2 ^ 32 by decide) (by omega)
  have hinv := inv_malloc hshape hfits
  have hkept : ∀ b ∈ c.live, ∀ x, InArea b x →
      (step head c (.malloc sizeofE1000Device)).heap.mem x = c.heap.mem x := fun b hb x hx =>
    malloc_keeps_area hshape hfits hb hx
  rw [hstep] at hinv hkept
  have hreturned := hshape.returned
  rw [hreturned] at hinv
  rw [← hheap] at hcall
  refine ⟨e1000, heap, deviceBlock e1000 :: c.live, hcall, hne, rfl, hinv, rfl, by simp, by simp,
    hkept, ?_⟩
  simp only [List.length_nil, Option.toList_none]
  omega

/-- The ring that the card and the driver see. -/
theorem Ready.ringOf_eq (h : Ready head c₀ e1000 (List.finRange E1000_NUM_RX_DESC) live s)
    (hring : RingSet s) :
    ∃ buffers lengths, ringOf s = Network.initReceiveDescriptors buffers lengths s.heap.mem ∧
      ∀ i, bufferBlock s.heap.mem e1000 i =
        ⟨buffers.addr i, BitVec.ofNat 32 (MAX_PACKET_SIZE + sizeofRxDesc)⟩ := by
  have hcur : readLE s.heap.mem (s.e1000 + BitVec.ofNat 32 Field.rxCur.place) 2 = 0 := by
    apply eq_of_byteAt
    intro k hk
    rw [byteAt_readLE _ _ hk, BitVec.add_assoc, ← BitVec.ofNat_add, hring.cur k hk]
    exact (byteAt_zero k).symm
  refine ⟨⟨fun i => (bufferBlock s.heap.mem e1000 i).ptr, fun i j hne =>
    h.heap.separate_buffers hne⟩, fun i => (rxDescAt s.heap.mem e1000 i).length, ?_, fun _ => rfl⟩
  rw [ringOf, hring.first, hring.last, hcur]
  have hdescs : rxDescAt s.heap.mem s.e1000 = fun i =>
      ⟨((rxDescAt s.heap.mem e1000 i).addr.setWidth 32).setWidth 64,
        (rxDescAt s.heap.mem e1000 i).length, 0⟩ := by
    funext i
    rw [h.device, h.heap.addr i (List.mem_finRange i), ← h.heap.status i (List.mem_finRange i)]
  rw [hdescs]
  rfl

theorem Ready.ringReady (h : Ready head c₀ e1000 (List.finRange E1000_NUM_RX_DESC) live s)
    (hring : RingSet s) : RingReady head c₀ s := by
  obtain ⟨buffers, lengths, heq, hblocks⟩ := h.ringOf_eq hring
  obtain ⟨free, blocks, hshape⟩ := h.heap.inv
  refine ⟨buffers, lengths, live, heq, hring.base, hring.length, hshape.safe, fun i => ?_, ?_,
    fun b hb => ⟨h.heap.old_mem hb, h.heap.kept b hb⟩⟩
  · have hmem := h.heap.buffer_mem i
    have haligned := hshape.safe.aligned _ hmem
    rw [hblocks i] at hmem haligned
    exact ⟨hmem, haligned⟩
  · rw [h.device]
    exact h.heap.device_mem

/-- `e1000_init` succeeds, and all descriptors are ready. -/
theorem e1000Init_spec {c : Client} (hinv : Inv head c) (hheap : s.heap = c.heap)
    (hroom : c.heap.currentHeapAddress.toNat + 263856 ≤ HEAP_START.toNat + HEAP_SIZE.toNat)
    {devices : PciIndex → PciDevice} (hcard : (pciGetDevice devices INTEL_VEND E1000_DEV).isSome)
    (host : Host) (hw : Latch) (pciDevices : Word) (card : CardReads) :
    ∃ s' live', e1000Init head host hw pciDevices devices card s = some s' ∧
      Ready head c s'.e1000 (List.finRange E1000_NUM_RX_DESC) live' s' ∧ RingSet s' := by
  obtain ⟨k, hk⟩ := Option.isSome_iff_exists.mp hcard
  obtain ⟨e1000, heap, live, hmalloc, hne, hready⟩ := ready_of_malloc hinv hheap hroom
  obtain ⟨s', live', hstart, hready', hring⟩ :=
    ((hready.setField .pciDevice (byteAt (pciDevicePointer pciDevices (some k)))).configureCard hw
      (devices k)).startE1000 hroom host card
  refine ⟨s', live', ?_, ?_, hring⟩
  · simp only [e1000Init, hmalloc, if_neg hne, hk]
    exact hstart
  · rw [hready'.device]
    exact hready'

end Kernel

/-- **`e1000_init` gets the receive ring ready**, if the card is on the bus and the
heap has room behind the break. -/
theorem e1000Init_ready (head : ListHead) (mem : Mem) (calls : List Call)
    (hcalls : EveryStep (step head) Allowed (initialClient head mem) calls) (host : Host)
    (hw : Latch) (pciDevices : Word) (devices : PciIndex → PciDevice) (card : CardReads)
    (s : Kernel) (hheap : s.heap = (run (step head) (initialClient head mem) calls).heap)
    (hroom : s.heap.currentHeapAddress.toNat + 263856 ≤ HEAP_START.toNat + HEAP_SIZE.toNat)
    (hcard : (pciGetDevice devices INTEL_VEND E1000_DEV).isSome) :
    ∃ s', e1000Init head host hw pciDevices devices card s = some s' ∧
      RingReady head (run (step head) (initialClient head mem) calls) s' := by
  rw [hheap] at hroom
  obtain ⟨s', live, hinit, hready, hring⟩ :=
    e1000Init_spec (inv_run hcalls) hheap hroom hcard host hw pciDevices card
  exact ⟨s', hinit, hready.ringReady hring⟩

/-- A kernel that has called `malloc` before, and the card in the slot 12. -/
theorem freshKernel_ringReady :
    let head : ListHead := ⟨0x8000, by decide⟩
    let c := run (step head) (initialClient head fun _ => 0) [.malloc 100]
    let s : Kernel := ⟨c.heap, fun _ => 0, 0, []⟩
    let devices : PciIndex → PciDevice :=
      fun i => if i.val = 1 then ⟨0x42006000, 0, 0, 12, 0x8086, 0x100E⟩ else noPciDevices i
    ∃ s', e1000Init head ⟨false, 0, 0, fun _ => 0, true⟩ (fun _ _ v => v) 0x20000 devices
        ⟨fun _ => 0x10, 0, 0, 0⟩ s = some s' ∧
      RingReady head c s' :=
  e1000Init_ready ⟨0x8000, by decide⟩ (fun _ => 0) [.malloc 100] (by decide +kernel)
    ⟨false, 0, 0, fun _ => 0, true⟩ (fun _ _ v => v) 0x20000
    (fun i => if i.val = 1 then ⟨0x42006000, 0, 0, 12, 0x8086, 0x100E⟩ else noPciDevices i)
    ⟨fun _ => 0x10, 0, 0, 0⟩ ⟨_, fun _ => 0, 0, []⟩ rfl (by decide +kernel) (by decide +kernel)

end E1000Init
end Network
end Ninjastorms
