import Mathlib.Data.List.Nodup
import Ninjastorms.Types

/-!
# The pin table

`kernel/drivers/pininfo.c`: for each pin the register that multiplexes it, the
mask that clears its field there, and the mode that selects its function.  The
first 144 rows are the GPIO pins.  A row of zeros stands for a pin whose field
is not known.

`tableRow_wellFormed` and `fields_nodup` are what the driver needs of the table:
the mask of every listed GPIO pin clears one group of four bits, its mode only
sets bits of this group, and no two pins have the same group.
-/

namespace Ninjastorms
namespace Drivers

/-- `pin_info`. -/
structure PinInfo where
  muxreg : Word
  muxregMask : Word
  muxregMode : Word
  deriving DecidableEq

/-- `pininfo`. -/
def pininfo : List PinInfo :=
  [ -- GPIO pins, one paragraph for each of the nine groups of 16
    ⟨0, 0x00000000, 0x00000000⟩, ⟨1, 0xF0FFFFFF, 0x08000000⟩,
    ⟨1, 0xFF0FFFFF, 0x00800000⟩, ⟨1, 0xFFF0FFFF, 0x00080000⟩,
    ⟨1, 0xFFFF0FFF, 0x00008000⟩, ⟨1, 0xFFFFF0FF, 0x00000800⟩,
    ⟨1, 0xFFFFFF0F, 0x00000080⟩, ⟨1, 0xFFFFFFF0, 0x00000008⟩,
    ⟨0, 0x00000000, 0x00000000⟩, ⟨0, 0x00000000, 0x00000000⟩,
    ⟨0, 0x00000000, 0x00000000⟩, ⟨0, 0xFFF0FFFF, 0x00080000⟩,
    ⟨0, 0xFFFF0FFF, 0x00008000⟩, ⟨0, 0xFFFFF0FF, 0x00000800⟩,
    ⟨0, 0xFFFFFF0F, 0x00000080⟩, ⟨0, 0xFFFFFFF0, 0x00000008⟩,

    ⟨4, 0x0FFFFFFF, 0x80000000⟩, ⟨0, 0x00000000, 0x00000000⟩,
    ⟨0, 0x00000000, 0x00000000⟩, ⟨0, 0x00000000, 0x00000000⟩,
    ⟨0, 0x00000000, 0x00000000⟩, ⟨0, 0x00000000, 0x00000000⟩,
    ⟨0, 0x00000000, 0x00000000⟩, ⟨0, 0x00000000, 0x00000000⟩,
    ⟨3, 0xFFFFFFF0, 0x00000004⟩, ⟨2, 0xF0FFFFFF, 0x04000000⟩,
    ⟨2, 0xFF0FFFFF, 0x00400000⟩, ⟨2, 0xFFF0FFFF, 0x00040000⟩,
    ⟨2, 0xFFFF0FFF, 0x00004000⟩, ⟨2, 0xFFFFF0FF, 0x00000400⟩,
    ⟨2, 0xFFFFFF0F, 0x00000040⟩, ⟨2, 0xFFFFFFF0, 0x00000008⟩,

    ⟨6, 0x0FFFFFFF, 0x80000000⟩, ⟨6, 0xF0FFFFFF, 0x08000000⟩,
    ⟨6, 0xFF0FFFFF, 0x00800000⟩, ⟨6, 0xFFF0FFFF, 0x00080000⟩,
    ⟨6, 0xFFFF0FFF, 0x00008000⟩, ⟨6, 0xFFFFF0FF, 0x00000800⟩,
    ⟨6, 0xFFFFFF0F, 0x00000080⟩, ⟨6, 0xFFFFFFF0, 0x00000008⟩,
    ⟨5, 0x0FFFFFFF, 0x80000000⟩, ⟨5, 0xF0FFFFFF, 0x08000000⟩,
    ⟨5, 0xFF0FFFFF, 0x00800000⟩, ⟨5, 0xFFF0FFFF, 0x00080000⟩,
    ⟨5, 0xFFFF0FFF, 0x00008000⟩, ⟨5, 0xFFFFF0FF, 0x00000800⟩,
    ⟨0, 0x00000000, 0x00000000⟩, ⟨0, 0x00000000, 0x00000000⟩,

    ⟨8, 0x0FFFFFFF, 0x80000000⟩, ⟨8, 0xF0FFFFFF, 0x08000000⟩,
    ⟨8, 0xFF0FFFFF, 0x00800000⟩, ⟨8, 0xFFF0FFFF, 0x00080000⟩,
    ⟨8, 0xFFFF0FFF, 0x00008000⟩, ⟨8, 0xFFFFF0FF, 0x00000800⟩,
    ⟨8, 0xFFFFFF0F, 0x00000080⟩, ⟨8, 0xFFFFFFF0, 0x00000008⟩,
    ⟨7, 0x0FFFFFFF, 0x80000000⟩, ⟨7, 0xF0FFFFFF, 0x08000000⟩,
    ⟨7, 0xFF0FFFFF, 0x00800000⟩, ⟨7, 0xFFF0FFFF, 0x00080000⟩,
    ⟨7, 0xFFFF0FFF, 0x00008000⟩, ⟨7, 0xFFFFF0FF, 0x00000800⟩,
    ⟨7, 0xFFFFFF0F, 0x00000080⟩, ⟨7, 0xFFFFFFF0, 0x00000008⟩,

    ⟨0, 0x00000000, 0x00000000⟩, ⟨10, 0xF0FFFFFF, 0x08000000⟩,
    ⟨0, 0x00000000, 0x00000000⟩, ⟨0, 0x00000000, 0x00000000⟩,
    ⟨0, 0x00000000, 0x00000000⟩, ⟨0, 0x00000000, 0x00000000⟩,
    ⟨0, 0x00000000, 0x00000000⟩, ⟨0, 0x00000000, 0x00000000⟩,
    ⟨9, 0x0FFFFFFF, 0x80000000⟩, ⟨9, 0xF0FFFFFF, 0x08000000⟩,
    ⟨9, 0xFF0FFFFF, 0x00800000⟩, ⟨0, 0x00000000, 0x00000000⟩,
    ⟨9, 0xFFFF0FFF, 0x00008000⟩, ⟨0, 0x00000000, 0x00000000⟩,
    ⟨9, 0xFFFFFF0F, 0x00000080⟩, ⟨0, 0x00000000, 0x00000000⟩,

    ⟨12, 0x0FFFFFFF, 0x80000000⟩, ⟨12, 0xF0FFFFFF, 0x08000000⟩,
    ⟨12, 0xFF0FFFFF, 0x00800000⟩, ⟨12, 0xFFF0FFFF, 0x00080000⟩,
    ⟨12, 0xFFFF0FFF, 0x00008000⟩, ⟨12, 0xFFFFF0FF, 0x00000800⟩,
    ⟨12, 0xFFFFFF0F, 0x00000080⟩, ⟨12, 0xFFFFFFF0, 0x00000008⟩,
    ⟨11, 0x0FFFFFFF, 0x80000000⟩, ⟨11, 0xF0FFFFFF, 0x08000000⟩,
    ⟨11, 0xFF0FFFFF, 0x00800000⟩, ⟨11, 0xFFF0FFFF, 0x00080000⟩,
    ⟨11, 0xFFFF0FFF, 0x00008000⟩, ⟨11, 0xFFFFF0FF, 0x00000800⟩,
    ⟨11, 0xFFFFFF0F, 0x00000080⟩, ⟨11, 0xFFFFFFF0, 0x00000008⟩,

    ⟨19, 0xF0FFFFFF, 0x08000000⟩, ⟨19, 0xFF0FFFFF, 0x00800000⟩,
    ⟨19, 0xFFF0FFFF, 0x00080000⟩, ⟨19, 0xFFFF0FFF, 0x00008000⟩,
    ⟨19, 0xFFFFF0FF, 0x00000800⟩, ⟨16, 0xFFFFFF0F, 0x00000080⟩,
    ⟨14, 0xFFFFFF0F, 0x00000080⟩, ⟨14, 0xFFFFFFF0, 0x00000008⟩,
    ⟨13, 0x0FFFFFFF, 0x80000000⟩, ⟨13, 0xF0FFFFFF, 0x08000000⟩,
    ⟨13, 0xFF0FFFFF, 0x00800000⟩, ⟨13, 0xFFF0FFFF, 0x00080000⟩,
    ⟨13, 0xFFFF0FFF, 0x00008000⟩, ⟨13, 0xFFFFF0FF, 0x00000800⟩,
    ⟨13, 0xFFFFFF0F, 0x00000080⟩, ⟨13, 0xFFFFFFF0, 0x00000008⟩,

    ⟨0, 0x00000000, 0x00000000⟩, ⟨0, 0x00000000, 0x00000000⟩,
    ⟨0, 0x00000000, 0x00000000⟩, ⟨0, 0x00000000, 0x00000000⟩,
    ⟨17, 0xFF0FFFFF, 0x00800000⟩, ⟨0, 0x00000000, 0x00000000⟩,
    ⟨0, 0x00000000, 0x00000000⟩, ⟨0, 0x00000000, 0x00000000⟩,
    ⟨17, 0xFFFFFF0F, 0x00000080⟩, ⟨17, 0xFFFFFFF0, 0x00000008⟩,
    ⟨16, 0x0FFFFFFF, 0x80000000⟩, ⟨16, 0xF0FFFFFF, 0x08000000⟩,
    ⟨16, 0xFF0FFFFF, 0x00800000⟩, ⟨16, 0xFFF0FFFF, 0x00080000⟩,
    ⟨16, 0xFFFF0FFF, 0x00008000⟩, ⟨16, 0xFFFFF0FF, 0x00000800⟩,

    ⟨0, 0x00000000, 0x00000000⟩, ⟨0, 0x00000000, 0x00000000⟩,
    ⟨3, 0xF0FFFFFF, 0x04000000⟩, ⟨3, 0xFF0FFFFF, 0x00400000⟩,
    ⟨0, 0x00000000, 0x00000000⟩, ⟨3, 0xFFFF0FFF, 0x00004000⟩,
    ⟨3, 0xFFFFF0FF, 0x00000400⟩, ⟨0, 0x00000000, 0x00000000⟩,
    ⟨19, 0xFFFFFF0F, 0x00000080⟩, ⟨19, 0xFFFFFFF0, 0x00000008⟩,
    ⟨18, 0x0FFFFFFF, 0x80000000⟩, ⟨18, 0xF0FFFFFF, 0x08000000⟩,
    ⟨18, 0xFF0FFFFF, 0x00800000⟩, ⟨18, 0xFFF0FFFF, 0x00080000⟩,
    ⟨18, 0xFFFF0FFF, 0x00008000⟩, ⟨18, 0xFFFFF0FF, 0x00000800⟩,
    -- empty (no. of GPIOs)
    ⟨0, 0x00000000, 0x00000000⟩,
    -- UART pins
    ⟨3, 0xFF0FFFFF, 0x00200000⟩, ⟨3, 0xFFF0FFFF, 0x00020000⟩,
    ⟨4, 0x0FFFFFFF, 0x20000000⟩,
    ⟨0, 0x00000000, 0x00000000⟩,
    -- SPI0 pins
    ⟨3, 0xFFFF0FFF, 0x00001000⟩, ⟨3, 0xFFFFF0FF, 0x00000100⟩,
    ⟨3, 0xFFFFFFF0, 0x00000001⟩, ⟨3, 0xF0FFFFFF, 0x01000000⟩,
    ⟨0, 0x00000000, 0x00000000⟩ ]

/-- `pininfo_size`. -/
def pininfoSize : Nat :=
  pininfo.length

/-- `GPIO_PIN`. -/
def gpioPin (b o : Word) : Word :=
  b * 0x10 + o

/-- The number of GPIO pins. -/
def numGpioPins : Nat := 144

theorem numGpioPins_lt_pininfoSize : numGpioPins < pininfoSize := by
  decide +kernel

/-- The row of a pin. -/
def tableRow (n : Nat) : PinInfo :=
  pininfo.getD n ⟨0, 0, 0⟩

/-- Which group of four bits the mask clears. -/
def PinInfo.nibble (pi : PinInfo) : Nat :=
  (~~~pi.muxregMask).toNat.log2 / 4

/-- The number of registers that multiplex pins. -/
def numMuxregs : Nat := 20

/-- What the driver relies on for the row of a listed pin. -/
def PinInfo.WellFormed (pi : PinInfo) : Prop :=
  pi.nibble < 8 ∧ pi.muxregMask = ~~~((0xF : Word) <<< (4 * pi.nibble)) ∧
  pi.muxregMode &&& pi.muxregMask = 0 ∧ pi.muxreg.toNat < numMuxregs

instance (pi : PinInfo) : Decidable pi.WellFormed :=
  inferInstanceAs (Decidable (_ ∧ _ ∧ _ ∧ _))

theorem tableRow_wellFormed :
    ∀ n < numGpioPins, (tableRow n).muxregMask ≠ 0 → (tableRow n).WellFormed := by
  decide +kernel

/-- The mask clears the bits of the field. -/
theorem PinInfo.WellFormed.getLsbD_mask {pi : PinInfo} (h : pi.WellFormed) {i : Nat}
    (hi : i < 32) : pi.muxregMask.getLsbD i = !decide (i / 4 = pi.nibble) := by
  have hones : ∀ j < 32, (0xF : Word).getLsbD j = decide (j < 4) := by decide
  obtain ⟨-, hmask, -⟩ := h
  rw [hmask, BitVec.getLsbD_not, BitVec.getLsbD_shiftLeft, hones _ (by omega)]
  simp only [hi, decide_true, Bool.true_and]
  congr 1
  rw [← decide_not, ← Bool.decide_and]
  exact decide_eq_decide.mpr (by omega)

/-- The mode has no bit outside the field. -/
theorem PinInfo.WellFormed.getLsbD_mode {pi : PinInfo} (h : pi.WellFormed) {i : Nat}
    (hi : i < 32) (hout : i / 4 ≠ pi.nibble) : pi.muxregMode.getLsbD i = false := by
  have hand := congrArg (fun v => v.getLsbD i) h.2.2.1
  simpa [h.getLsbD_mask hi, hout] using hand

/-- The GPIO pins whose field is known. -/
def listedPins : List Nat :=
  (List.range numGpioPins).filter fun n => (tableRow n).muxregMask != 0

/-- No two pins share a field. -/
theorem fields_nodup :
    (listedPins.map fun n => ((tableRow n).muxreg, (tableRow n).nibble)).Nodup := by
  decide +kernel

/-- A GPIO pin whose field is known. -/
structure GpioPin where
  number : Word
  isGpio : number.toNat < numGpioPins
  listed : (tableRow number.toNat).muxregMask ≠ 0
  deriving DecidableEq

/-- The row of a listed pin. -/
def GpioPin.info (pin : GpioPin) : PinInfo :=
  tableRow pin.number.toNat

theorem GpioPin.wellFormed (pin : GpioPin) : pin.info.WellFormed :=
  tableRow_wellFormed _ pin.isGpio pin.listed

theorem GpioPin.mem_listedPins (pin : GpioPin) : pin.number.toNat ∈ listedPins :=
  List.mem_filter.mpr ⟨List.mem_range.mpr pin.isGpio, by simpa using pin.listed⟩

theorem GpioPin.ext_number {p q : GpioPin} (h : p.number = q.number) : p = q := by
  cases p
  cases q
  cases h
  rfl

/-- Different pins have different fields. -/
theorem GpioPin.field_ne {p q : GpioPin} (hne : p ≠ q) :
    p.info.muxreg ≠ q.info.muxreg ∨ p.info.nibble ≠ q.info.nibble := by
  by_contra hsame
  obtain ⟨hreg, hnibble⟩ := not_or.mp hsame
  have hnumber : p.number.toNat = q.number.toNat :=
    List.inj_on_of_nodup_map fields_nodup p.mem_listedPins q.mem_listedPins
      (Prod.ext (not_not.mp hreg) (not_not.mp hnibble))
  exact hne (GpioPin.ext_number (BitVec.eq_of_toNat_eq hnumber))

/-- The pin of an LED, and one that has no row of its own. -/
example : (tableRow (gpioPin 6 13).toNat).muxregMask = 0xFFFFF0FF ∧
    (tableRow (gpioPin 0 0).toNat).muxregMask = 0 := by decide

end Drivers
end Ninjastorms
