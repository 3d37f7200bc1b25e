import Ninjastorms.Lib.TableScan
import Ninjastorms.Pci.Mmio

/-!
# Finding the devices on the PCI bus

`kernel/pci/pci.c` over `kernel/mmio.c`.  The configuration space is memory, but
what a register keeps of a value that is written is a matter of the hardware:
`Latch` gives the new value of the register at an address from the old one and
the one that is written.

`pci_init` first looks for the controller and enables it, then goes once through
the slots 11 to 31 and fills in a table; `pci_get_device` looks a device up in the
table.  `pciInit_getDevice` says what the two find together.
-/

namespace Ninjastorms
namespace Pci

open Lib.ByteMemory Lib.TableScan

/-- What the register at an address holds after a write: address, old value,
written value. -/
abbrev Latch := Word → Word → Word → Word

/-! ### `mmio.c` -/

/-- `read16`. -/
def read16 (m : Mem) (address : Word) : HalfWord :=
  m (address + 1) ++ m address

/-- `read32`. -/
def read32 (m : Mem) (address : Word) : Word :=
  load32 m address

/-- `write32`. -/
def write32 (hw : Latch) (m : Mem) (address value : Word) : Mem :=
  store32 m address (hw address (load32 m address) value)

/-- `write16`, of the lower half of a register; the upper one stays what it is. -/
def write16 (hw : Latch) (m : Mem) (address : Word) (value : HalfWord) : Mem :=
  writeBytes m address 2
    (byteAt (hw address (load32 m address) (read16 m (address + 2) ++ value)))

/-! ### `pci.h` -/

/-- `PCI_SELF_CONFIG`. -/
def PCI_SELF_CONFIG : Word := 0x41000000

/-- `PCI_CONFIG`. -/
def PCI_CONFIG : Word := 0x42000000

/-- `PCI_DEVICE_BIT_OFFSET`. -/
def PCI_DEVICE_BIT_OFFSET : Nat := 11

/-- `PCI_VENDOR_ID`. -/
def PCI_VENDOR_ID : Word := 0x00

/-- `PCI_DEVICE_ID`. -/
def PCI_DEVICE_ID : Word := 0x02

/-- `PCI_COMMAND`. -/
def PCI_COMMAND : Word := 0x04

/-- `PCI_CLASS_REVISION`. -/
def PCI_CLASS_REVISION : Word := 0x08

/-- `PCI_BASE_ADDRESS_0`. -/
def PCI_BASE_ADDRESS_0 : Word := 0x10

/-- `PCI_BAR`. -/
def PCI_BAR (number : Byte) : Word :=
  PCI_BASE_ADDRESS_0 + number.setWidth 32 * 4

/-- `PCI_COMMAND_IO`. -/
def PCI_COMMAND_IO : HalfWord := 0x1

/-- `PCI_COMMAND_MEMORY`. -/
def PCI_COMMAND_MEMORY : HalfWord := 0x2

/-- `PCI_COMMAND_MASTER`. -/
def PCI_COMMAND_MASTER : HalfWord := 0x4

/-- `PCI_COMMAND_INVALIDATE`. -/
def PCI_COMMAND_INVALIDATE : HalfWord := 0x10

/-- `PCI_IMAP0`, `PCI_IMAP1` and `PCI_IMAP2`. -/
def PCI_IMAP : Fin 3 → Word
  | 0 => 0x10001000
  | 1 => 0x10001004
  | 2 => 0x10001008

/-- `PCI_SELFID`. -/
def PCI_SELFID : Word := 0x1000100C

/-- `VP_PCI_DEV_ID`. -/
def VP_PCI_DEV_ID : Word := 0x030010ee

/-- `VP_PCI_CLASS_ID`. -/
def VP_PCI_CLASS_ID : Word := 0x0b400000

/-- `PCI_INVALID_VENDOR`. -/
def PCI_INVALID_VENDOR : HalfWord := 0xFFFF

/-- `MAX_PCI_DEVICES`. -/
abbrev MAX_PCI_DEVICES : Nat := 21

/-- An index into `pci_devices`; it stands for the slot `i + 11`. -/
abbrev PciIndex := Fin MAX_PCI_DEVICES

/-- `pci_device_t`. -/
structure PciDevice where
  configBase : Word
  memBase : Word
  ioBase : Word
  pciSlotId : Byte
  vendorId : HalfWord
  deviceId : HalfWord
  deriving DecidableEq

/-- `pci_devices` before `pci_init`. -/
def noPciDevices : PciIndex → PciDevice :=
  fun _ => ⟨0, 0, 0, 0, 0, 0⟩

/-! ### `pci.c` -/

/-- The slot of the loop variable. -/
def slotOf (i : PciIndex) : Nat :=
  i.val + 11

/-- The configuration space of a slot, seen from `base`. -/
def slotAddress (base : Word) (i : PciIndex) : Word :=
  base + (BitVec.ofNat 32 (slotOf i) <<< PCI_DEVICE_BIT_OFFSET)

/-- `pci_enable_bus_mastering`. -/
def pciEnableBusMastering (hw : Latch) (m : Mem) (address : Word) : Mem :=
  write16 hw m (address + PCI_COMMAND) (read16 m (address + PCI_COMMAND) |||
    (PCI_COMMAND_MASTER ||| PCI_COMMAND_IO ||| PCI_COMMAND_MEMORY))

/-- `get_bar_type`. -/
def getBarType (m : Mem) (base : Word) (number : Byte) : Byte :=
  (read32 m (base + PCI_BAR number) &&& 1).setWidth 8

/-- `decoded_size` in `get_bar_size`. -/
def decodedSize (before encodedSize : Word) : Word :=
  let bitMask : Word := if before &&& 1 ≠ 0 then 0xFFFFFFFC else 0xFFFFFFF0
  ~~~(encodedSize &&& bitMask) + 1

/-- `get_bar_size`: the size and the configuration space that it leaves. -/
def getBarSize (hw : Latch) (m : Mem) (base : Word) (number : Byte) : Word × Mem :=
  let barAddr := base + PCI_BAR number
  let before := read32 m barAddr
  let m := write32 hw m barAddr 0xFFFFFFFF
  let encodedSize := read32 m barAddr
  let m := write32 hw m barAddr before
  (decodedSize before encodedSize, m)

/-- `pci_alloc_memory`. -/
def pciAllocMemory (hw : Latch) (m : Mem) (device : PciDevice) (bar : Byte) : Word × Mem :=
  let address : Word := if getBarType m device.configBase bar ≠ 0 then 0x43000000 else 0x50000000
  (address, write32 hw m (device.configBase + PCI_BAR bar) address)

/-- One turn of the loop of `enumerate_pci_devices`. -/
def probe (m : Mem) (i : PciIndex) (device : PciDevice) : PciDevice :=
  let deviceAddr := slotAddress PCI_CONFIG i
  let vendorId := read16 m (deviceAddr + PCI_VENDOR_ID)
  let deviceId := read16 m (deviceAddr + PCI_DEVICE_ID)
  if vendorId = PCI_INVALID_VENDOR then device
  else
    { device with
      configBase := deviceAddr
      pciSlotId := BitVec.ofNat 8 (slotOf i)
      vendorId := vendorId
      deviceId := deviceId }

/-- `enumerate_pci_devices`. -/
def enumeratePciDevices (m : Mem) (devices : PciIndex → PciDevice) : PciIndex → PciDevice :=
  (List.finRange MAX_PCI_DEVICES).foldl
    (fun devices i => Function.update devices i (probe m i (devices i))) devices

/-- The condition on which the loop of `configure_board` stops. -/
def isCore (m : Mem) (i : PciIndex) : Bool :=
  read32 m (slotAddress PCI_SELF_CONFIG i + PCI_VENDOR_ID) == VP_PCI_DEV_ID &&
    read32 m (slotAddress PCI_SELF_CONFIG i + PCI_CLASS_REVISION) == VP_PCI_CLASS_ID

/-- The first part of `configure_board`: the registers that translate addresses. -/
def imapWritten (hw : Latch) (m : Mem) : Mem :=
  write32 hw (write32 hw (write32 hw m (PCI_IMAP 0) ((0x44000000 : Word) >>> 28))
    (PCI_IMAP 1) ((0x50000000 : Word) >>> 28)) (PCI_IMAP 2) ((0x60000000 : Word) >>> 28)

/-- The command register of a slot. -/
def commandOf (i : PciIndex) : Word :=
  slotAddress PCI_CONFIG i + PCI_COMMAND

/-- The last part of `configure_board`: the controller has been found. -/
def coreEnabled (hw : Latch) (m : Mem) (i : PciIndex) : Mem :=
  let m := write32 hw m PCI_SELFID (BitVec.ofNat 32 (slotOf i))
  write32 hw m (commandOf i) (read32 m (commandOf i) |||
    (PCI_COMMAND_MEMORY ||| PCI_COMMAND_MASTER ||| PCI_COMMAND_INVALIDATE).setWidth 32)

/-- The loop of `configure_board`. -/
def findCore (m : Mem) : Option PciIndex :=
  Fin.find? (isCore m)

/-- `configure_board`: its result and the registers that it leaves. -/
def configureBoard (hw : Latch) (m : Mem) : Int × Mem :=
  let m := imapWritten hw m
  match findCore m with
  | none => (-1, m)
  | some i => (0, coreEnabled hw m i)

/-- `pci_get_device`: the index of the entry that it returns a pointer to. -/
def pciGetDevice (devices : PciIndex → PciDevice) (vendorId deviceId : HalfWord) :
    Option PciIndex :=
  Fin.find? fun i => (devices i).vendorId == vendorId && (devices i).deviceId == deviceId

/-- `pci_init`: the table and the registers that it leaves. -/
def pciInit (hw : Latch) (m : Mem) (devices : PciIndex → PciDevice) :
    (PciIndex → PciDevice) × Mem :=
  let m := (configureBoard hw m).2
  (enumeratePciDevices m devices, m)

/-! ### What is found -/

/-- What a slot answers: the vendor and the device. -/
def answers (m : Mem) (i : PciIndex) : HalfWord × HalfWord :=
  (read16 m (slotAddress PCI_CONFIG i + PCI_VENDOR_ID),
    read16 m (slotAddress PCI_CONFIG i + PCI_DEVICE_ID))

/-- The entry of the slot is that of the device.  An empty slot leaves its entry
as it was, so it passes for a device 0 of vendor 0. -/
def Shows (m : Mem) (vendorId deviceId : HalfWord) (i : PciIndex) : Prop :=
  if (answers m i).1 = PCI_INVALID_VENDOR then vendorId = 0 ∧ deviceId = 0
  else answers m i = (vendorId, deviceId)

section Enumerate

variable {hw : Latch} {m : Mem}

theorem slotOf_le (i : PciIndex) : slotOf i ≤ 31 :=
  Nat.add_le_of_le_sub (by decide) (Nat.le_of_lt_succ i.isLt)

/-- Where a register of a slot lies. -/
theorem toNat_slotAddress_add {base : Word} (hbase : base.toNat ≤ 0x42000000) (i : PciIndex)
    {d : Nat} (hd : d < 2048) :
    (slotAddress base i + BitVec.ofNat 32 d).toNat = base.toNat + 2048 * slotOf i + d := by
  have hle := slotOf_le i
  have hshift : PCI_DEVICE_BIT_OFFSET = 11 := rfl
  rw [slotAddress, BitVec.toNat_add, BitVec.toNat_add, BitVec.toNat_shiftLeft, BitVec.toNat_ofNat,
    BitVec.toNat_ofNat, Nat.shiftLeft_eq, hshift]
  omega

theorem toNat_configAddress (i : PciIndex) {d : Nat} (hd : d < 2048) :
    (slotAddress PCI_CONFIG i + BitVec.ofNat 32 d).toNat = 0x42000000 + 2048 * slotOf i + d :=
  toNat_slotAddress_add (by decide) i hd

/-- A byte in front of a word, or behind it, is not in it. -/
theorem not_offset_lt_four {a x : Word} (ha : a.toNat + 4 ≤ 2 ^ 32)
    (h : x.toNat < a.toNat ∨ a.toNat + 4 ≤ x.toNat) : ¬ offset a x < 4 := by
  have hoff : offset a x = (2 ^ 32 - a.toNat + x.toNat) % 2 ^ 32 := BitVec.toNat_sub x a
  have hx := x.isLt
  omega

/-- The registers of the controller lie below the configuration spaces. -/
theorem imapWritten_outside (hw : Latch) (m : Mem) {x : Word} (hx : 0x41000000 ≤ x.toNat) :
    imapWritten hw m x = m x := by
  have himap : ∀ j, (PCI_IMAP j).toNat + 4 ≤ 0x41000000 := by decide
  have hout : ∀ j, ¬ offset (PCI_IMAP j) x < 4 := fun j =>
    not_offset_lt_four ((himap j).trans (by decide)) (Or.inr ((himap j).trans hx))
  rw [imapWritten, write32, store32_outside (hout 2), write32, store32_outside (hout 1), write32,
    store32_outside (hout 0)]

theorem toNat_commandOf (i : PciIndex) : (commandOf i).toNat = 0x42000000 + 2048 * slotOf i + 4 :=
  toNat_configAddress i (d := 4) (by omega)

/-- What `configure_board` can do. -/
theorem configureBoard_cases (hw : Latch) (m : Mem) :
    ((∀ i, isCore (imapWritten hw m) i = false) ∧
      configureBoard hw m = (-1, imapWritten hw m)) ∨
    ∃ i, isCore (imapWritten hw m) i = true ∧ (∀ j < i, isCore (imapWritten hw m) j = false) ∧
      configureBoard hw m = (0, coreEnabled hw (imapWritten hw m) i) := by
  unfold configureBoard
  simp only
  split
  · rename_i hfind
    exact Or.inl ⟨Fin.find?_eq_none_iff.mp hfind, rfl⟩
  · rename_i i hfind
    obtain ⟨hi, hfirst⟩ := Fin.find?_eq_some_iff.mp hfind
    exact Or.inr ⟨i, hi, hfirst, rfl⟩

/-- Enabling the controller touches one configuration register. -/
theorem coreEnabled_outside (hw : Latch) (m : Mem) (i : PciIndex) {x : Word}
    (hx : 0x41000000 ≤ x.toNat) (hcommand : ¬ offset (commandOf i) x < 4) :
    coreEnabled hw m i x = m x := by
  have hself : PCI_SELFID.toNat + 4 ≤ 0x41000000 := by decide
  simp only [coreEnabled, write32]
  rw [store32_outside hcommand, store32_outside (not_offset_lt_four (by omega) (by omega))]

/-- `configure_board` changes none of the identification registers. -/
theorem configureBoard_ids (hw : Latch) (m : Mem) (i : PciIndex) {d : Nat} (hd : d < 4) :
    (configureBoard hw m).2 (slotAddress PCI_CONFIG i + BitVec.ofNat 32 d) =
      m (slotAddress PCI_CONFIG i + BitVec.ofNat 32 d) := by
  have hx := toNat_configAddress i (d := d) (by omega)
  rcases configureBoard_cases hw m with ⟨-, heq⟩ | ⟨k, -, -, heq⟩
  · rw [heq]
    exact imapWritten_outside hw m (by omega)
  · -- the command register of a slot lies behind its identification, in front of the next
    have hcommand := toNat_commandOf k
    have hk := slotOf_le k
    rw [heq]
    exact (coreEnabled_outside hw _ k (by omega) (not_offset_lt_four (by omega) (by omega))).trans
      (imapWritten_outside hw m (by omega))

theorem answers_configureBoard (hw : Latch) (m : Mem) (i : PciIndex) :
    answers (configureBoard hw m).2 i = answers m i := by
  have hvendor : slotAddress PCI_CONFIG i + PCI_VENDOR_ID + 1 =
      slotAddress PCI_CONFIG i + BitVec.ofNat 32 1 := BitVec.add_assoc _ _ _
  have hdevice : slotAddress PCI_CONFIG i + PCI_DEVICE_ID + 1 =
      slotAddress PCI_CONFIG i + BitVec.ofNat 32 3 := BitVec.add_assoc _ _ _
  have h0 := configureBoard_ids hw m i (d := 0) (by omega)
  have h1 := configureBoard_ids hw m i (d := 1) (by omega)
  have h2 := configureBoard_ids hw m i (d := 2) (by omega)
  have h3 := configureBoard_ids hw m i (d := 3) (by omega)
  simp only [answers, read16, hvendor, hdevice]
  exact congrArg₂ Prod.mk (congrArg₂ (· ++ ·) h1 h0) (congrArg₂ (· ++ ·) h3 h2)

/-- The entry of a slot after the enumeration. -/
theorem enumerate_entry (m : Mem) (devices : PciIndex → PciDevice) (i : PciIndex) :
    enumeratePciDevices m devices i = probe m i (devices i) := by
  rw [enumeratePciDevices, foldl_fill]

theorem pciInit_entry (hw : Latch) (m : Mem) (i : PciIndex) :
    (pciInit hw m noPciDevices).1 i = if (answers m i).1 = PCI_INVALID_VENDOR then
        ⟨0, 0, 0, 0, 0, 0⟩
      else
        ⟨slotAddress PCI_CONFIG i, 0, 0, BitVec.ofNat 8 (slotOf i), (answers m i).1,
          (answers m i).2⟩ := by
  rw [← answers_configureBoard hw m i]
  exact enumerate_entry (configureBoard hw m).2 noPciDevices i

/-- The condition on which `pci_get_device` stops. -/
theorem shows_iff (hw : Latch) (m : Mem) (vendorId deviceId : HalfWord) (i : PciIndex) :
    Shows m vendorId deviceId i ↔
      (((pciInit hw m noPciDevices).1 i).vendorId == vendorId &&
        ((pciInit hw m noPciDevices).1 i).deviceId == deviceId) = true := by
  rw [pciInit_entry, Shows]
  by_cases hempty : (answers m i).1 = PCI_INVALID_VENDOR
  · simp only [if_pos hempty, Bool.and_eq_true, beq_iff_eq]
    exact and_congr eq_comm eq_comm
  · simp only [if_neg hempty, Bool.and_eq_true, beq_iff_eq]
    exact Prod.ext_iff

end Enumerate

/-- **The bus is scanned.**  After `pci_init`, `pci_get_device` returns the entry of
the first slot that shows the device, and none exactly if there is no such slot;
the entry says where the device is configured. -/
theorem pciInit_getDevice (hw : Latch) (m : Mem) (vendorId deviceId : HalfWord) :
    let devices := (pciInit hw m noPciDevices).1
    (∀ i, pciGetDevice devices vendorId deviceId = some i ↔
      Shows m vendorId deviceId i ∧ ∀ j < i, ¬ Shows m vendorId deviceId j) ∧
    (pciGetDevice devices vendorId deviceId = none ↔ ∀ i, ¬ Shows m vendorId deviceId i) ∧
    ∀ i, (answers m i).1 ≠ PCI_INVALID_VENDOR → devices i =
      ⟨slotAddress PCI_CONFIG i, 0, 0, BitVec.ofNat 8 (slotOf i), (answers m i).1,
        (answers m i).2⟩ := by
  intro devices
  refine ⟨fun i => ?_, ?_, fun i hi => ?_⟩
  · rw [pciGetDevice, Fin.find?_eq_some_iff]
    simp only [shows_iff hw, Bool.not_eq_true]
    rfl
  · rw [pciGetDevice, Fin.find?_eq_none_iff]
    simp only [shows_iff hw, Bool.not_eq_true]
    rfl
  · exact (pciInit_entry hw m i).trans (if_neg hi)

/-! ### The controller -/

/-- The first slot with the controller. -/
def FirstCore (m : Mem) (i : PciIndex) : Prop :=
  isCore m i = true ∧ ∀ j < i, isCore m j = false

section Controller

variable {hw : Latch} {m : Mem}

/-- The addresses of a word that does not wrap around. -/
theorem toNat_le_of_offset_lt {a x : Word} (ha : a.toNat + 4 ≤ 2 ^ 32) (hx : offset a x < 4) :
    a.toNat ≤ x.toNat := by
  by_contra hlt
  exact not_offset_lt_four ha (Or.inl (Nat.lt_of_not_le hlt)) hx

theorem read32_imapWritten (hw : Latch) (m : Mem) {a : Word} (hlow : 0x41000000 ≤ a.toNat)
    (hhigh : a.toNat + 4 ≤ 2 ^ 32) : read32 (imapWritten hw m) a = read32 m a :=
  load32_congr fun _ hx => imapWritten_outside hw m (hlow.trans (toNat_le_of_offset_lt hhigh hx))

theorem isCore_imapWritten (hw : Latch) (m : Mem) (i : PciIndex) :
    isCore (imapWritten hw m) i = isCore m i := by
  have hle := slotOf_le i
  have hself : PCI_SELF_CONFIG.toNat = 0x41000000 := rfl
  have hvendor : (slotAddress PCI_SELF_CONFIG i + PCI_VENDOR_ID).toNat = _ :=
    toNat_slotAddress_add (by decide) i (d := 0) (by omega)
  have hclass : (slotAddress PCI_SELF_CONFIG i + PCI_CLASS_REVISION).toNat = _ :=
    toNat_slotAddress_add (by decide) i (d := 8) (by omega)
  rw [isCore, isCore, read32_imapWritten hw m (by omega) (by omega),
    read32_imapWritten hw m (by omega) (by omega)]

/-- The command register of the controller afterwards. -/
theorem read32_command (hw : Latch) (m : Mem) (i : PciIndex) :
    read32 (coreEnabled hw (imapWritten hw m) i) (commandOf i) =
      hw (commandOf i) (read32 m (commandOf i)) (read32 m (commandOf i) ||| 0x16) := by
  have hcommand := toNat_commandOf i
  have hle := slotOf_le i
  have hself : PCI_SELFID.toNat + 4 ≤ 0x41000000 := by decide
  have hbefore : ∀ v, load32 (store32 (imapWritten hw m) PCI_SELFID v) (commandOf i) =
      load32 m (commandOf i) := by
    intro v
    rw [load32_store32 (separate_of_toNat_le (by omega) (by omega)).symm]
    exact read32_imapWritten hw m (by omega) (by omega)
  simp only [coreEnabled, write32, read32, load32_store32_self, hbefore]
  rfl

end Controller

/-- **The controller is enabled.**  `configure_board` succeeds exactly if some slot
holds the controller; then the first such slot may start transfers, and no other
register of a configuration space has changed. -/
theorem configureBoard_enables (hw : Latch) (m : Mem) :
    let m' := (configureBoard hw m).2
    ((configureBoard hw m).1 = 0 ↔ ∃ i, isCore m i = true) ∧
    (∀ i, FirstCore m i → read32 m' (commandOf i) =
      hw (commandOf i) (read32 m (commandOf i)) (read32 m (commandOf i) ||| 0x16)) ∧
    ∀ x : Word, 0x41000000 ≤ x.toNat → (∀ i, FirstCore m i → ¬ offset (commandOf i) x < 4) →
      m' x = m x := by
  intro m'
  have hcases := configureBoard_cases hw m
  simp only [isCore_imapWritten] at hcases
  rcases hcases with ⟨hnone, heq⟩ | ⟨k, hk, hfirst, heq⟩
  · have hm' : m' = imapWritten hw m := congrArg Prod.snd heq
    refine ⟨?_, fun i hi => ?_, fun x hx _ => ?_⟩
    · rw [heq]
      refine ⟨fun h => absurd (show (-1 : Int) = 0 from h) (by decide), ?_⟩
      rintro ⟨i, hi⟩
      rw [hnone i] at hi
      exact absurd hi (by decide)
    · have hcore := hi.1
      rw [hnone i] at hcore
      exact absurd hcore (by decide)
    · rw [hm']
      exact imapWritten_outside hw m hx
  · have hm' : m' = coreEnabled hw (imapWritten hw m) k := congrArg Prod.snd heq
    refine ⟨?_, fun i hi => ?_, fun x hx hout => ?_⟩
    · rw [heq]
      exact ⟨fun _ => ⟨k, hk⟩, fun _ => rfl⟩
    · -- there is only one first slot
      obtain rfl : i = k := by
        rcases lt_trichotomy i k with hlt | rfl | hgt
        · have hno := hfirst i hlt
          rw [hi.1] at hno
          exact absurd hno (by decide)
        · rfl
        · have hno := hi.2 k hgt
          rw [hk] at hno
          exact absurd hno (by decide)
      rw [hm']
      exact read32_command hw m i
    · rw [hm']
      exact (coreEnabled_outside hw _ k hx (hout k ⟨hk, hfirst⟩)).trans
        (imapWritten_outside hw m hx)

end Pci
end Ninjastorms
