import Ninjastorms.Pci.Enumeration

/-!
# Base address registers

A base address register holds an address in its upper bits and says in the lower
ones what it is the address of; how many of the upper bits there are tells the
size of the window, which is a power of two.  `DecodesBar` is this rule of the bus,
`getBarSize` reads the size off by writing all ones and puts the old value back,
and `pciAllocMemory` sets the address.
-/

namespace Ninjastorms
namespace Pci

open Lib.ByteMemory

/-- The bits from `k` on. -/
def highBits (k : Nat) : Word :=
  BitVec.allOnes 32 <<< k

/-- How many of the lower bits say what the register is: two in the I/O space,
four in the memory space. -/
def kindBits (flags : Word) : Nat :=
  if flags &&& 1 ≠ 0 then 2 else 4

/-- The register at `barAddr` decodes a window of `2 ^ k` bytes, and its lower bits
are `flags`. -/
structure DecodesBar (hw : Latch) (barAddr : Word) (k : Nat) (flags : Word) : Prop where
  keeps : ∀ old v, hw barAddr old v = (v &&& highBits k) ||| flags
  kind : flags.toNat < 2 ^ kindBits flags
  large : kindBits flags ≤ k
  small : k < 32

section Bits

variable {k j : Nat} {flags a : Word}

theorem getLsbD_highBits (k i : Nat) :
    (highBits k).getLsbD i = (decide (i < 32) && decide (k ≤ i)) := by
  rw [highBits, BitVec.getLsbD_shiftLeft, BitVec.getLsbD_allOnes]
  by_cases hi : i < 32
  · by_cases hk : k ≤ i
    · have hsub : i - k < 32 := by omega
      simp [hi, hk, hsub, Nat.not_lt.mpr hk]
    · simp [hk, Nat.lt_of_not_le hk]
  · simp [hi]

/-- The flags are below the bits of the address. -/
theorem getLsbD_flags (hflags : flags.toNat < 2 ^ j) {i : Nat} (hi : j ≤ i) :
    flags.getLsbD i = false :=
  Nat.testBit_lt_two_pow (hflags.trans_le (Nat.pow_le_pow_right (by decide) hi))

/-- The address in a register. -/
theorem decoded_address (hflags : flags.toNat < 2 ^ j) (hjk : j ≤ k)
    (ha : a &&& highBits k = a) : ((a ||| flags) &&& highBits j) = a := by
  apply BitVec.eq_of_getLsbD_eq
  intro i hi
  have hbit : (a.getLsbD i && decide (k ≤ i)) = a.getLsbD i := by
    have hand := congrArg (fun v => BitVec.getLsbD v i) ha
    simp only [BitVec.getLsbD_and, getLsbD_highBits, hi, decide_true, Bool.true_and] at hand
    exact hand
  rw [BitVec.getLsbD_and, BitVec.getLsbD_or, getLsbD_highBits]
  by_cases hij : j ≤ i
  · rw [getLsbD_flags hflags hij]
    simp only [hi, hij, decide_true, Bool.and_true, Bool.or_false]
  · have hki : ¬ k ≤ i := by omega
    rw [← hbit]
    simp [hij, hki]

theorem highBits_and_highBits (k : Nat) : highBits k &&& highBits k = highBits k :=
  BitVec.and_self

/-- An aligned address has no lower bits. -/
theorem and_highBits_of_dvd (ha : 2 ^ k ∣ a.toNat) : a &&& highBits k = a := by
  have hshift : a &&& highBits k = (a >>> k) <<< k := by
    apply BitVec.eq_of_getLsbD_eq
    intro i hi
    rw [BitVec.getLsbD_and, getLsbD_highBits, BitVec.getLsbD_shiftLeft, BitVec.getLsbD_ushiftRight]
    by_cases hk : k ≤ i
    · have hsum : k + (i - k) = i := by omega
      simp [hi, hk, hsum, Nat.not_lt.mpr hk]
    · simp [hk, Nat.lt_of_not_le hk]
  rw [hshift]
  apply BitVec.eq_of_toNat_eq
  have hlt := a.isLt
  rw [BitVec.toNat_shiftLeft, BitVec.toNat_ushiftRight, Nat.shiftRight_eq_div_pow,
    Nat.shiftLeft_eq, Nat.div_mul_cancel ha, Nat.mod_eq_of_lt hlt]

theorem size_of_highBits : ∀ k < 32, ~~~(highBits k) + 1 = BitVec.twoPow 32 k := by
  decide

end Bits

section Register

variable {hw : Latch} {m : Mem} {barAddr : Word} {k : Nat} {flags : Word}

/-- The lowest bit tells the kind of the register. -/
theorem and_one_held (hbar : DecodesBar hw barAddr k flags) (v : Word) :
    ((v &&& highBits k) ||| flags) &&& 1 = flags &&& 1 := by
  have hpos : 0 < k := by
    have hlarge := hbar.large
    unfold kindBits at hlarge
    split at hlarge <;> omega
  apply BitVec.eq_of_getLsbD_eq
  intro i hi
  rw [BitVec.getLsbD_and, BitVec.getLsbD_and, BitVec.getLsbD_or, BitVec.getLsbD_and,
    getLsbD_highBits]
  by_cases hzero : i = 0
  · subst hzero
    have hk : ¬ k ≤ 0 := by omega
    simp [hk]
  · simp [BitVec.getLsbD_one, hzero]

/-- All ones read back as the bits that the register has. -/
theorem latch_ones (hbar : DecodesBar hw barAddr k flags) (old : Word) :
    hw barAddr old 0xFFFFFFFF = highBits k ||| flags := by
  have hones : (0xFFFFFFFF : Word) &&& highBits k = highBits k := BitVec.allOnes_and
  exact (hbar.keeps old _).trans (congrArg (· ||| flags) hones)

/-- A value that the register holds is one that it keeps. -/
theorem latch_held (hbar : DecodesBar hw barAddr k flags) (old v : Word) :
    hw barAddr old ((v &&& highBits k) ||| flags) = (v &&& highBits k) ||| flags := by
  rw [hbar.keeps]
  apply BitVec.eq_of_getLsbD_eq
  intro i hi
  simp only [BitVec.getLsbD_or, BitVec.getLsbD_and]
  cases flags.getLsbD i <;> cases (highBits k).getLsbD i <;> simp

/-- The mask that `get_bar_size` chooses. -/
theorem bitMask_eq (flags : Word) :
    (if flags &&& 1 ≠ 0 then 0xFFFFFFFC else 0xFFFFFFF0 : Word) = highBits (kindBits flags) := by
  unfold kindBits
  split
  · decide
  · decide

theorem decodedSize_held (hbar : DecodesBar hw barAddr k flags) (v : Word) :
    decodedSize ((v &&& highBits k) ||| flags) (highBits k ||| flags) = BitVec.twoPow 32 k := by
  have hencoded : ((highBits k ||| flags) &&& highBits (kindBits flags)) = highBits k :=
    decoded_address hbar.kind hbar.large (highBits_and_highBits k)
  unfold decodedSize
  rw [and_one_held hbar, bitMask_eq]
  show ~~~((highBits k ||| flags) &&& highBits (kindBits flags)) + 1 = BitVec.twoPow 32 k
  rw [hencoded, size_of_highBits k hbar.small]

end Register

/-- **Windows are sized and placed.**  `get_bar_size` returns the size of the window
and leaves the registers as they were; `pci_alloc_memory` returns the address of the
I/O space or of the memory space, and if this is aligned to the size, it is the
address that the register then decodes. -/
theorem bar_sized_and_placed (hw : Latch) (m : Mem) (device : PciDevice) (number : Byte) (k : Nat)
    (flags : Word) (hbar : DecodesBar hw (device.configBase + PCI_BAR number) k flags)
    (hheld : ∃ v, read32 m (device.configBase + PCI_BAR number) = (v &&& highBits k) ||| flags) :
    getBarSize hw m device.configBase number = (BitVec.twoPow 32 k, m) ∧
    let result := pciAllocMemory hw m device number
    result.1 = (if flags &&& 1 ≠ 0 then 0x43000000 else 0x50000000) ∧
    (2 ^ k ∣ result.1.toNat →
      read32 result.2 (device.configBase + PCI_BAR number) &&& highBits (kindBits flags) =
        result.1) := by
  obtain ⟨v, hv⟩ := hheld
  constructor
  · rw [read32] at hv
    unfold getBarSize
    simp only [write32, read32, load32_store32_self, store32_store32]
    rw [latch_ones hbar, hv, decodedSize_held hbar, latch_held hbar, ← hv, store32_load32]
  · have htype : (getBarType m device.configBase number ≠ 0) ↔ flags &&& 1 ≠ 0 := by
      rw [getBarType, hv, and_one_held hbar]
      have hbit : flags &&& 1 = 0 ∨ flags &&& 1 = 1 := by
        have hone : flags &&& 1 = (BitVec.ofBool (flags.getLsbD 0)).setWidth 32 :=
          BitVec.and_one_eq_setWidth_ofBool_getLsbD
        rw [hone]
        cases flags.getLsbD 0
        · exact Or.inl rfl
        · exact Or.inr rfl
      rcases hbit with hbit | hbit
      · rw [hbit]
        decide
      · rw [hbit]
        decide
    intro result
    have haddress : result.1 = if flags &&& 1 ≠ 0 then 0x43000000 else 0x50000000 :=
      if_congr htype rfl rfl
    refine ⟨haddress, fun hdvd => ?_⟩
    have hread : read32 result.2 (device.configBase + PCI_BAR number) =
        (result.1 &&& highBits k) ||| flags := by
      show load32 (store32 m _ _) _ = _
      rw [load32_store32_self, hbar.keeps]
      rfl
    rw [hread, and_highBits_of_dvd hdvd]
    exact decoded_address hbar.kind hbar.large (and_highBits_of_dvd hdvd)

/-- The first window of the network card: 128 KiB of memory space. -/
theorem card_window_placed :
    let hw : Latch := fun _ _ v => (v &&& highBits 17) ||| 0
    let device : PciDevice := ⟨0x42006000, 0, 0, 12, 0x8086, 0x100E⟩
    getBarSize hw (fun _ => 0) device.configBase 0 = (BitVec.twoPow 32 17, fun _ => 0) ∧
    let result := pciAllocMemory hw (fun _ => 0) device 0
    result.1 = (if (0 : Word) &&& 1 ≠ 0 then 0x43000000 else 0x50000000) ∧
    (2 ^ 17 ∣ result.1.toNat →
      read32 result.2 (device.configBase + PCI_BAR 0) &&& highBits (kindBits 0) = result.1) :=
  bar_sized_and_placed (fun _ _ v => (v &&& highBits 17) ||| 0) (fun _ => 0)
    ⟨0x42006000, 0, 0, 12, 0x8086, 0x100E⟩ 0 17 0
    ⟨fun _ _ => rfl, by decide, by decide, by decide⟩ ⟨0, by decide⟩

end Pci
end Ninjastorms
